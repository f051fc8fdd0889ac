import RethHl.Node.Types
import RethHl.Semantics.Deadline

/-!
# Forwarding transactions

The node executes blocks and produces none, so a transaction that a client submits is forwarded to
the official RPC. The synchronous variant then asks for the receipt once a second, for half a minute
at most.

The upstream is a parameter: what it answers to a submission, and, for each request of a receipt,
how long the answer takes and what it is. `sendRawTransactionSync_outcome` says what a client gets
for every upstream: **the first receipt or error that comes within the time limit**, and an error of
its own if none does. The transaction is submitted once, and the receipt requested 31 times at most.
-/

namespace RethHl.Forwarder

/-! ### Errors -/

/-- An error of the RPC, with data of some type. -/
structure ErrorObject (D : Type) where
  code : ℤ
  message : String
  data : Option D
  deriving DecidableEq, Repr

/-- Why a request to the upstream fails: the upstream answers with an error, or there is no answer,
for a reason that is printed. -/
inductive ClientError (D : Type) where
  | call (error : ErrorObject D)
  | other (reason : String)
  deriving DecidableEq, Repr

def internalErrorCode : ℤ := -32603

/-- An error of the upstream is handed on, anything else is an internal error, whose data is that of
the unit. -/
def fromClientError {D : Type} (unitData : D) (what : String) : ClientError D → ErrorObject D
  | .call error => error
  | .other reason =>
    { code := internalErrorCode, message := what ++ ": " ++ reason, data := some unitData }

/-! ### Transactions -/

/-- What is requested of the upstream. -/
inductive Request where
  | sendRawTransaction (tx : Bytes)
  | getTransactionReceipt (hash : B256)
  deriving DecidableEq, Repr

/-- The upstream: its answer to a submission, and the `n`-th answer to the request of a receipt,
with the milliseconds it takes. -/
structure Upstream (R D : Type) where
  send : Bytes → Except (ClientError D) B256
  receipt : ℕ → B256 → ℕ × Except (ClientError D) (Option R)

/-- Half a minute, in milliseconds. -/
def timeoutDuration : ℕ := 30000

/-- The pause between two requests. -/
def interval : ℕ := 1000

instance : NeZero interval := ⟨by decide⟩

section Forwarder

variable {R D : Type} (upstream : Upstream R D) (unitData : D)
  (timeoutError : B256 → ℕ → ErrorObject D)

/-- `send_raw_transaction` -/
def sendRawTransaction (tx : Bytes) : Except (ErrorObject D) B256 :=
  (upstream.send tx).mapError (fromClientError unitData "Failed to send transaction")

/-- One request of the receipt; without a receipt the loop goes on. -/
def attempt (hash : B256) (n : ℕ) : ℕ × Option (Except (ErrorObject D) R) :=
  ((upstream.receipt n hash).1,
    match (upstream.receipt n hash).2 with
    | .error e => some (.error (fromClientError unitData "Failed to get transaction receipt" e))
    | .ok (some receipt) => some (.ok receipt)
    | .ok none => none)

/-- `send_raw_transaction_sync`, with the requests that it makes. -/
def sendRawTransactionSync (tx : Bytes) : Except (ErrorObject D) R × List Request :=
  match sendRawTransaction upstream unitData tx with
  | .error e => (.error e, [.sendRawTransaction tx])
  | .ok hash =>
    let (outcome, count) :=
      Deadline.poll (attempt upstream unitData hash) interval timeoutDuration 0 0
    (outcome.getD (.error (timeoutError hash timeoutDuration)),
      .sendRawTransaction tx :: List.replicate count (.getTransactionReceipt hash))

/-- The answer of the `n`-th request is the first that ends the loop, and it comes in time. -/
def InTime (hash : B256) (n : ℕ) : Prop :=
  (∀ m < n, (upstream.receipt m hash).2 = .ok none) ∧
    Deadline.startAt (attempt upstream unitData hash) interval n + (upstream.receipt n hash).1 ≤
      timeoutDuration

variable {upstream unitData timeoutError}

theorem attempt_eq_none_iff {hash : B256} {n : ℕ} :
    (attempt upstream unitData hash n).2 = none ↔ (upstream.receipt n hash).2 = .ok none := by
  rw [attempt]
  rcases (upstream.receipt n hash).2 with e | (- | receipt)
  · exact ⟨nofun, nofun⟩
  · exact ⟨fun _ ↦ rfl, fun _ ↦ rfl⟩
  · exact ⟨nofun, nofun⟩

theorem attempt_eq_ok_iff {hash : B256} {n : ℕ} {receipt : R} :
    (attempt upstream unitData hash n).2 = some (.ok receipt) ↔
      (upstream.receipt n hash).2 = .ok (some receipt) := by
  rw [attempt]
  rcases (upstream.receipt n hash).2 with e | (- | receipt')
  · exact ⟨nofun, nofun⟩
  · exact ⟨nofun, nofun⟩
  · exact ⟨fun h ↦ congrArg _ (congrArg _ (Except.ok.inj (Option.some.inj h))),
      fun h ↦ congrArg _ (congrArg _ (Option.some.inj (Except.ok.inj h)))⟩

theorem attempt_eq_error_iff {hash : B256} {n : ℕ} {error : ErrorObject D} :
    (attempt upstream unitData hash n).2 = some (.error error) ↔
      ∃ e, (upstream.receipt n hash).2 = .error e ∧
        error = fromClientError unitData "Failed to get transaction receipt" e := by
  rw [attempt]
  rcases (upstream.receipt n hash).2 with e | (- | receipt)
  · refine ⟨fun h ↦ ⟨e, rfl, (Except.error.inj (Option.some.inj h)).symm⟩,
      fun ⟨e', he, herror⟩ ↦ ?_⟩
    rw [herror, Except.error.inj he]
  · exact ⟨nofun, nofun⟩
  · exact ⟨nofun, nofun⟩

/-- The outcome of the loop. -/
theorem poll_attempt_eq_some_iff {hash : B256} {outcome : Except (ErrorObject D) R} :
    (Deadline.poll (attempt upstream unitData hash) interval timeoutDuration 0 0).1 = some outcome ↔
      ∃ n, InTime upstream unitData hash n ∧
        (attempt upstream unitData hash n).2 = some outcome := by
  rw [Deadline.poll_eq_some_iff]
  refine exists_congr fun n ↦ ?_
  simp only [Deadline.Answers, InTime, attempt_eq_none_iff]
  exact ⟨fun h ↦ ⟨⟨h.1.2, h.2⟩, h.1.1⟩, fun h ↦ ⟨⟨h.2, h.1.1⟩, h.1.2⟩⟩

/-- What the client of the synchronous variant gets, and what the upstream is asked. -/
structure SyncOutcome (upstream : Upstream R D) (unitData : D)
    (timeoutError : B256 → ℕ → ErrorObject D) (tx : Bytes)
    (result : Except (ErrorObject D) R × List Request) : Prop where
  /-- A receipt is the first answer that is no delay, and it comes in time. -/
  ok_iff : ∀ receipt, result.1 = .ok receipt ↔ ∃ hash n, upstream.send tx = .ok hash ∧
    InTime upstream unitData hash n ∧ (upstream.receipt n hash).2 = .ok (some receipt)
  /-- An error is that of the submission, that of the first such answer, or the time limit. -/
  error_iff : ∀ error, result.1 = .error error ↔
    (∃ e, upstream.send tx = .error e ∧
      error = fromClientError unitData "Failed to send transaction" e) ∨
    ∃ hash, upstream.send tx = .ok hash ∧
      ((∃ n e, InTime upstream unitData hash n ∧ (upstream.receipt n hash).2 = .error e ∧
          error = fromClientError unitData "Failed to get transaction receipt" e) ∨
        (∀ n, InTime upstream unitData hash n → (upstream.receipt n hash).2 = .ok none) ∧
          error = timeoutError hash timeoutDuration)
  /-- A submission that fails is all that the upstream is asked. -/
  requests_of_error : ∀ e, upstream.send tx = .error e → result.2 = [.sendRawTransaction tx]
  /-- After one that succeeds, the receipt of its hash is requested at most 31 times. -/
  requests_of_ok : ∀ hash, upstream.send tx = .ok hash → ∃ count ≤ 31,
    result.2 = .sendRawTransaction tx :: List.replicate count (.getTransactionReceipt hash)

/-- No answer ends the loop in time exactly when the loop is cut off. -/
theorem poll_attempt_eq_none_iff {hash : B256} :
    (Deadline.poll (attempt upstream unitData hash) interval timeoutDuration 0 0).1 = none ↔
      ∀ n, InTime upstream unitData hash n → (upstream.receipt n hash).2 = .ok none := by
  rw [Option.eq_none_iff_forall_ne_some]
  constructor
  · intro h n hn
    rw [← attempt_eq_none_iff]
    rcases hanswer : (attempt upstream unitData hash n).2 with - | outcome
    · rfl
    · exact absurd (poll_attempt_eq_some_iff.2 ⟨n, hn, hanswer⟩) (h outcome)
  · intro h outcome hpoll
    obtain ⟨n, hn, hanswer⟩ := poll_attempt_eq_some_iff.1 hpoll
    exact nomatch (attempt_eq_none_iff.2 (h n hn)).symm.trans hanswer

/-- **What becomes of a transaction that is submitted synchronously**, whatever the upstream
does. -/
theorem sendRawTransactionSync_outcome (upstream : Upstream R D) (unitData : D)
    (timeoutError : B256 → ℕ → ErrorObject D) (tx : Bytes) :
    SyncOutcome upstream unitData timeoutError tx
      (sendRawTransactionSync upstream unitData timeoutError tx) := by
  rcases hsend : upstream.send tx with e | hash
  · have hresult : sendRawTransactionSync upstream unitData timeoutError tx =
        (.error (fromClientError unitData "Failed to send transaction" e),
          [.sendRawTransaction tx]) := by
      rw [sendRawTransactionSync, sendRawTransaction, hsend]
      rfl
    rw [hresult]
    refine ⟨fun receipt ↦ ⟨nofun, fun ⟨_, _, h, _⟩ ↦ nomatch hsend.symm.trans h⟩, fun error ↦ ?_,
      fun _ _ ↦ rfl, fun hash h ↦ nomatch hsend.symm.trans h⟩
    refine ⟨fun h ↦ Or.inl ⟨e, hsend, (Except.error.inj h).symm⟩, fun h ↦ ?_⟩
    rcases h with ⟨e', he', rfl⟩ | ⟨hash, hhash, -⟩
    · rw [Except.error.inj (hsend.symm.trans he')]
    · exact nomatch hsend.symm.trans hhash
  · set outcome := (Deadline.poll (attempt upstream unitData hash) interval timeoutDuration 0 0).1
      with houtcome
    have hresult : sendRawTransactionSync upstream unitData timeoutError tx =
        (outcome.getD (.error (timeoutError hash timeoutDuration)), .sendRawTransaction tx ::
          List.replicate
            (Deadline.poll (attempt upstream unitData hash) interval timeoutDuration 0 0).2
            (.getTransactionReceipt hash)) := by
      rw [sendRawTransactionSync, sendRawTransaction, hsend]
      rfl
    have hhash : ∀ {hash'}, upstream.send tx = .ok hash' → hash' = hash := fun h ↦
      (Except.ok.inj (hsend.symm.trans h)).symm
    rw [hresult]
    refine ⟨fun receipt ↦ ?_, fun error ↦ ?_, fun e h ↦ (nomatch hsend.symm.trans h),
      fun hash' h ↦ ?_⟩
    · show outcome.getD _ = .ok receipt ↔ _
      constructor
      · intro h
        rcases hsome : outcome with - | result
        · rw [hsome] at h
          exact nomatch h
        · rw [hsome] at h
          obtain rfl : result = .ok receipt := h
          obtain ⟨n, hn, hanswer⟩ := poll_attempt_eq_some_iff.1 (houtcome.symm.trans hsome)
          exact ⟨hash, n, hsend, hn, attempt_eq_ok_iff.1 hanswer⟩
      · rintro ⟨hash', n, hsend', hn, hanswer⟩
        obtain rfl := hhash hsend'
        rw [houtcome, poll_attempt_eq_some_iff.2 ⟨n, hn, attempt_eq_ok_iff.2 hanswer⟩]
        rfl
    · show outcome.getD _ = .error error ↔ _
      constructor
      · intro h
        refine Or.inr ⟨hash, hsend, ?_⟩
        rcases hsome : outcome with - | result
        · rw [hsome] at h
          exact Or.inr ⟨poll_attempt_eq_none_iff.1 (houtcome.symm.trans hsome),
            (Except.error.inj h).symm⟩
        · rw [hsome] at h
          obtain rfl : result = .error error := h
          obtain ⟨n, hn, hanswer⟩ := poll_attempt_eq_some_iff.1 (houtcome.symm.trans hsome)
          obtain ⟨e, he, herror⟩ := attempt_eq_error_iff.1 hanswer
          exact Or.inl ⟨n, e, hn, he, herror⟩
      · intro h
        rcases h with ⟨e, he, -⟩ | ⟨hash', hsend', hcases⟩
        · exact nomatch hsend.symm.trans he
        · obtain rfl := hhash hsend'
          rcases hcases with ⟨n, e, hn, he, herror⟩ | ⟨hnone, rfl⟩
          · rw [houtcome,
              poll_attempt_eq_some_iff.2 ⟨n, hn, attempt_eq_error_iff.2 ⟨e, he, herror⟩⟩]
            rfl
          · rw [houtcome, poll_attempt_eq_none_iff.2 hnone]
            rfl
    · rw [hhash h]
      exact ⟨_, Deadline.poll_count_le, rfl⟩

end Forwarder

end RethHl.Forwarder
