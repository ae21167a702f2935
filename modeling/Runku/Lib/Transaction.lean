import Runku.Lib.Fallible

namespace transaction

/-- A connection inside a transaction: the working copy, and for each statement still to come whether
the backend fails it. Statements beyond the list succeed. -/
structure Connection (σ ε : Type) where
  working : σ
  faults : List (Option ε)

/-- The body of a transaction. -/
def Body (σ ε α : Type) := Connection σ ε → Except ε α × Connection σ ε

variable {σ ε α β : Type}

instance instMonadBody : Monad (Body σ ε) where
  pure a := fun c => (.ok a, c)
  bind x f := fun c =>
    match x c with
    | (.ok a, c) => f a c
    | (.error e, c) => (.error e, c)

/-- One statement: a backend failure, or the statement's own effect on the working copy. -/
def statement (run : σ → Except ε (α × σ)) : Body σ ε α := fun c =>
  match c.faults with
  | some e :: faults => (.error e, ⟨c.working, faults⟩)
  | faults =>
    match run c.working with
    | .ok (a, working) => (.ok a, ⟨working, faults.tail⟩)
    | .error e => (.error e, ⟨c.working, faults.tail⟩)

/-- A statement that only reads. -/
def fetch (query : σ → α) : Body σ ε α := statement fun s => .ok (query s, s)

/-- A write that reports nothing. -/
def execute (update : σ → σ) : Body σ ε Unit := statement fun s => .ok ((), update s)

/-- A check made between statements. -/
def lift (x : Except ε α) : Body σ ε α := fun c => (x, c)

/-- A loop that runs one body for each item. -/
def for_each {ι : Type} (body : ι → Body σ ε Unit) : List ι → Body σ ε Unit
  | [] => pure ()
  | item :: items => do
    body item
    for_each body items

/-- A loop that collects what its body returns. -/
def collect {ι : Type} (body : ι → Body σ ε α) : List ι → Body σ ε (List α)
  | [] => pure []
  | item :: items => do
    let a ← body item
    let as ← collect body items
    return a :: as

/-- What happened to the final `COMMIT`. A failed one may still have taken effect. -/
inductive CommitOutcome (ε : Type)
  | Committed
  | Failed (error : ε) (took_effect : Bool)
  deriving DecidableEq

/-- Runs a body and commits its working copy, or rolls back to the state before it. -/
def transact (body : Body σ ε α) (faults : List (Option ε)) (outcome : CommitOutcome ε) (s : σ) : Except ε α × σ :=
  match body ⟨s, faults⟩ with
  | (.error e, _) => (.error e, s)
  | (.ok a, c) =>
    match outcome with
    | .Committed => (.ok a, c.working)
    | .Failed e true => (.error e, c.working)
    | .Failed e false => (.error e, s)

theorem bind_apply (x : Body σ ε α) (f : α → Body σ ε β) (c : Connection σ ε) :
    (x >>= f) c = match x c with
      | (.ok a, c) => f a c
      | (.error e, c) => (.error e, c) := rfl

/-- Without backend failures a statement does what it says. -/
theorem statement_apply_nil (run : σ → Except ε (α × σ)) (s : σ) :
    statement run ⟨s, []⟩ = match run s with
      | .ok (a, s') => (.ok a, ⟨s', []⟩)
      | .error e => (.error e, ⟨s, []⟩) := rfl

/-- The body can succeed from `s` with result `a`, leaving `s'`. -/
def Runs (body : Body σ ε α) (s : σ) (a : α) (s' : σ) : Prop :=
  ∃ faults faults', body ⟨s, faults⟩ = (.ok a, ⟨s', faults'⟩)

variable {s s' : σ} {b : β} {f : α → Body σ ε β}

theorem Runs.bind {x : Body σ ε α} (h : Runs (x >>= f) s b s') : ∃ a s₁, Runs x s a s₁ ∧ Runs (f a) s₁ b s' := by
  obtain ⟨faults, faults', h⟩ := h
  simp only [Bind.bind] at h
  split at h
  · rename_i a c hx
    exact ⟨a, c.working, ⟨faults, c.faults, hx⟩, ⟨c.faults, faults', h⟩⟩
  · cases h

theorem Runs.pure {a b : α} (h : Runs (Pure.pure a : Body σ ε α) s b s') : b = a ∧ s' = s := by
  obtain ⟨faults, faults', h⟩ := h
  simp only [Pure.pure, Prod.mk.injEq, Except.ok.injEq, Connection.mk.injEq] at h
  exact ⟨h.1.symm, h.2.1.symm⟩

variable {a : α}

theorem Runs.statement {run : σ → Except ε (α × σ)}
    (h : Runs (transaction.statement run) s a s') : run s = .ok (a, s') := by
  obtain ⟨faults, faults', h⟩ := h
  simp only [transaction.statement] at h
  split at h
  · cases h
  · split at h
    · rename_i hrun
      simp only [Prod.mk.injEq, Except.ok.injEq, Connection.mk.injEq] at h
      rw [hrun, h.1, h.2.1]
    · cases h

theorem Runs.statement_bind {run : σ → Except ε (α × σ)} (h : Runs (transaction.statement run >>= f) s b s') :
    ∃ a s₁, run s = .ok (a, s₁) ∧ Runs (f a) s₁ b s' := by
  obtain ⟨a, s₁, hstatement, h⟩ := h.bind
  exact ⟨a, s₁, hstatement.statement, h⟩

theorem Runs.lift {x : Except ε α} (h : Runs (transaction.lift x) s a s') : x = .ok a ∧ s' = s := by
  obtain ⟨faults, faults', h⟩ := h
  simp only [transaction.lift, Prod.mk.injEq, Connection.mk.injEq] at h
  exact ⟨h.1, h.2.1.symm⟩

theorem Runs.lift_bind {x : Except ε α}
    (h : Runs (transaction.lift x >>= f) s b s') : ∃ a, x = .ok a ∧ Runs (f a) s b s' := by
  obtain ⟨a, s₁, hlift, hf⟩ := h.bind
  obtain ⟨hx, heq⟩ := hlift.lift
  exact ⟨a, hx, heq ▸ hf⟩

theorem Runs.fetch {query : σ → α} (h : Runs (transaction.fetch query : Body σ ε α) s a s') :
    a = query s ∧ s' = s := by
  obtain ⟨rfl, rfl⟩ := Prod.mk.inj (Except.ok.inj (Runs.statement h))
  exact ⟨rfl, rfl⟩

theorem Runs.fetch_bind {query : σ → α}
    (h : Runs (transaction.fetch query >>= f) s b s') : Runs (f (query s)) s b s' := by
  obtain ⟨a, s₁, hfetch, h⟩ := h.statement_bind
  cases hfetch
  exact h

theorem Runs.execute {update : σ → σ} {u : Unit} (h : Runs (transaction.execute update : Body σ ε Unit) s u s') :
    s' = update s :=
  (Prod.mk.inj (Except.ok.inj h.statement)).2.symm

theorem Runs.execute_bind {update : σ → σ} {f : Unit → Body σ ε β}
    (h : Runs (transaction.execute update >>= f) s b s') : Runs (f ()) (update s) b s' := by
  obtain ⟨_, s₁, hexecute, h⟩ := h.statement_bind
  cases hexecute
  exact h

theorem Runs.collect_cons {ι : Type} {body : ι → Body σ ε α} {item : ι} {items : List ι} {as : List α}
    (h : Runs (collect body (item :: items)) s as s') :
    ∃ a s₁ rest, Runs (body item) s a s₁ ∧ Runs (collect body items) s₁ rest s' ∧ as = a :: rest := by
  obtain ⟨a, s₁, hbody, h⟩ := h.bind
  obtain ⟨rest, s₂, hrest, h⟩ := h.bind
  obtain ⟨rfl, rfl⟩ := h.pure
  exact ⟨a, s₁, rest, hbody, hrest, rfl⟩

/-- What every turn of a collecting loop keeps, the loop keeps. -/
theorem Runs.collect_induction {ι : Type} {body : ι → Body σ ε α} {inv : σ → Prop} {items : List ι}
    {as : List α} (h : Runs (collect body items) s as s')
    (hstep : ∀ item ∈ items, ∀ s s' a, Runs (body item) s a s' → inv s → inv s') (hs : inv s) : inv s' := by
  induction items generalizing s as with
  | nil =>
    obtain ⟨_, rfl⟩ := h.pure
    exact hs
  | cons item items ih =>
    obtain ⟨a, s₁, rest, hbody, hrest, _⟩ := h.collect_cons
    exact ih hrest (fun item hitem => hstep item (List.mem_cons_of_mem _ hitem))
      (hstep item List.mem_cons_self _ _ _ hbody hs)

/-- What a transaction made durable, if anything: the value of its body and the new state. A `COMMIT`
that failed after taking effect is durable although the caller saw an error. -/
def committed (body : Body σ ε α) (faults : List (Option ε)) (outcome : CommitOutcome ε) (s : σ) : Option (α × σ) :=
  match body ⟨s, faults⟩, outcome with
  | (.error _, _), _ => none
  | (.ok _, _), .Failed _ false => none
  | (.ok a, c), _ => some (a, c.working)

variable {body : Body σ ε α} {faults : List (Option ε)} {outcome : CommitOutcome ε}

theorem runs_of_committed (h : committed body faults outcome s = some (a, s')) : Runs body s a s' := by
  unfold committed at h
  split at h
  · cases h
  · cases h
  · rename_i c hbody _
    cases h
    exact ⟨faults, c.faults, hbody⟩

/-- The state after a transaction is the one it made durable, or the one before it. -/
theorem transact_snd (body : Body σ ε α) (faults : List (Option ε)) (outcome : CommitOutcome ε) (s : σ) :
    (transact body faults outcome s).2 = ((committed body faults outcome s).map Prod.snd).getD s := by
  unfold transact committed
  cases hbody : body ⟨s, faults⟩ with
  | mk r c =>
    cases r with
    | error e => rfl
    | ok a =>
      cases outcome with
      | Committed => rfl
      | Failed e took_effect => cases took_effect <;> rfl

/-- A transaction that reports success is durable. -/
theorem committed_of_transact_eq_ok (h : transact body faults outcome s = (.ok a, s')) :
    committed body faults outcome s = some (a, s') := by
  unfold transact at h
  unfold committed
  split at h
  · cases h
  · rename_i a' c hbody
    cases outcome with
    | Committed =>
      obtain ⟨rfl, rfl⟩ := Prod.mk.inj h |>.imp_left Except.ok.inj
      rw [hbody]
    | Failed e took_effect => cases took_effect <;> cases h

/-- A transaction that reports success committed a successful run of its body. -/
theorem runs_of_transact_eq_ok (h : transact body faults outcome s = (.ok a, s')) : Runs body s a s' :=
  runs_of_committed (committed_of_transact_eq_ok h)

/-- What a transaction did to the state: nothing, or all of a successful run of its body. -/
theorem transact_state (body : Body σ ε α) (faults : List (Option ε)) (outcome : CommitOutcome ε)
    (s : σ) : (transact body faults outcome s).2 = s ∨ ∃ a, Runs body s a (transact body faults outcome s).2 := by
  rw [transact_snd]
  cases hcommitted : committed body faults outcome s with
  | none => exact .inl rfl
  | some p => exact .inr ⟨p.1, runs_of_committed hcommitted⟩

/-- All that a transaction can do: fail without a trace, or make a successful run of its body durable, and report it
unless the `COMMIT` failed after taking effect. -/
theorem transact_cases (body : Body σ ε α) (faults : List (Option ε)) (outcome : CommitOutcome ε) (s : σ) :
    (∃ e, transact body faults outcome s = (.error e, s)) ∨
    ∃ a s', Runs body s a s' ∧ (transact body faults outcome s = (.ok a, s') ∨
      ∃ e, outcome = .Failed e true ∧ transact body faults outcome s = (.error e, s')) := by
  unfold transact
  cases hbody : body ⟨s, faults⟩ with
  | mk result c =>
    cases result with
    | error e => exact .inl ⟨e, rfl⟩
    | ok a =>
      have hruns : Runs body s a c.working := ⟨faults, c.faults, hbody⟩
      cases outcome with
      | Committed => exact .inr ⟨a, c.working, hruns, .inl rfl⟩
      | Failed e took_effect =>
        cases took_effect with
        | true => exact .inr ⟨a, c.working, hruns, .inr ⟨e, rfl, rfl⟩⟩
        | false => exact .inl ⟨e, rfl⟩

/-- A transaction that reports an error left the state alone, unless its `COMMIT` failed after taking
effect. -/
theorem transact_eq_error {body : Body σ ε α} {faults : List (Option ε)}
    {outcome : CommitOutcome ε} {s s' : σ} {e : ε} (houtcome : ∀ e, outcome ≠ .Failed e true)
    (h : transact body faults outcome s = (.error e, s')) : s' = s := by
  unfold transact at h
  split at h
  · exact (Prod.mk.inj h).2.symm
  · cases outcome with
    | Committed => cases h
    | Failed e' took_effect =>
      cases took_effect with
      | true => exact absurd rfl (houtcome e')
      | false => exact (Prod.mk.inj h).2.symm

end transaction
