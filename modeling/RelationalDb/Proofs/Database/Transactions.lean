import Mathlib
import RelationalDb.Database.Session
import RelationalDb.Proofs.Database.Statements

/-!
# Transactions and their locks

In a consistent database every journal tracks the committed tables and stages only tables
whose lock its transaction holds.  A journal that was handed over and waits to be written
counts as one of its transaction.  Beginning, ending and running statements keep this and
leave the committed rows alone.
-/

namespace RelationalDb

namespace Locks

variable {l l' : Locks} {table : String} {id i : Nat}

theorem acquire_eq_ok (h : l.acquire table id = .ok l') (hl : l.holders.Ordered) :
    l'.holders.Ordered ∧ l'.holder? table = some id ∧
      ∀ {t i}, l.holder? t = some i → l'.holder? t = some i := by
  unfold acquire at h
  split at h
  · next hfree =>
      cases h
      refine ⟨hl.insert _ _, ?_, ?_⟩
      · unfold holder?
        rw [SortedMap.get?_insert hl, if_pos rfl]
      · intro t i ht
        unfold holder? at ht hfree ⊢
        rw [SortedMap.get?_insert hl, if_neg]
        · exact ht
        · intro heq
          rw [heq, hfree] at ht
          cases ht
  · next holder hholder =>
      split at h
      · next heq =>
          cases h
          rw [heq] at hholder
          exact ⟨hl, hholder, fun ht => ht⟩
      · cases h

theorem holder?_of_acquire (h : l.acquire table id = .ok l') (hl : l.holders.Ordered) {t : String}
    (hi : l'.holder? t = some i) : l.holder? t = some i ∨ i = id := by
  unfold acquire at h
  split at h
  · cases h
    unfold holder? at hi ⊢
    rw [SortedMap.get?_insert hl] at hi
    split at hi
    · exact Or.inr (Option.some.inj hi).symm
    · exact Or.inl hi
  · split at h
    · cases h
      exact Or.inl hi
    · cases h

theorem acquire_of_other (h : l.holder? table = some i) (hne : i ≠ id) :
    l.acquire table id = .error (.operation (.tableLocked table i)) := by
  unfold acquire
  rw [h]
  exact if_neg hne

theorem holder?_release (hl : l.holders.Ordered) :
    (l.release id).holder? table = some i ↔ l.holder? table = some i ∧ i ≠ id := by
  unfold holder? release
  rw [SortedMap.get?_filter_eq_some_iff hl]
  simp

end Locks

theorem Journal.TracksOnly.mono {P Q : String → Prop} {committed : Committed} {j : Journal}
    (h : j.TracksOnly P committed) (hle : ∀ table, P table → Q table) :
    j.TracksOnly Q committed where
  toTracks := h.toTracks
  within := fun ht => hle _ (h.within ht)

theorem Journal.tracksOnly_empty (P : String → Prop) (committed : Committed) :
    ({} : Journal).TracksOnly P committed where
  toTracks := Journal.tracks_empty committed
  within := fun ht => absurd ht (Journal.not_stages_empty _)

namespace Database

/-- A journal that tracks the committed tables and stages only tables whose lock the transaction
holds. -/
def Guards (d : Database) (id : Nat) (j : Journal) : Prop :=
  j.TracksOnly (fun table => d.locks.holder? table = some id) d.committed

/-- The journals of all transactions, and those that wait to be written, are guarded by the locks
of their transactions.  A transaction whose journal waits stages nothing else. -/
structure Consistent (waiting : SortedMap Nat Journal) (d : Database) : Prop where
  wellKept : d.committed.WellKept
  orderedLocks : d.locks.holders.Ordered
  orderedTransactions : d.transactions.Ordered
  numbered : ∀ {id : Nat} {t : Transaction}, d.transactions.get? id = some t →
    t.work.id = id ∧ id < d.nextTransaction
  guarded : ∀ {id : Nat} {t : Transaction}, d.transactions.get? id = some t →
    d.Guards id t.work.journal
  waits : ∀ {id : Nat} {j : Journal}, waiting.get? id = some j →
    d.Guards id j ∧ ∃ t, d.transactions.get? id = some t ∧ t.work.phase = .active ∧
      t.work.journal = {}

/-- The transaction has staged nothing. -/
structure Quiet (waiting : SortedMap Nat Journal) (id : Nat) (d : Database) : Prop where
  notWaiting : waiting.get? id = none
  nothing : ∀ {t : Transaction}, d.transactions.get? id = some t → t.work.journal = {}

variable {waiting waiting' : SortedMap Nat Journal} {d d' : Database} {id : Nat}
  {t : Transaction} {j : Journal}

theorem transaction_eq_ok_iff : d.transaction id = .ok t ↔ d.transactions.get? id = some t := by
  unfold transaction
  split
  · next h => simp [h]
  · next h => simp [h]

theorem ne_of_notWaiting (hwaiting : waiting.get? id = none) {i : Nat}
    (hi : waiting.get? i = some j) : i ≠ id := by
  intro heq
  rw [heq, hwaiting] at hi
  cases hi

theorem Consistent.fewer (h : d.Consistent waiting)
    (hfewer : ∀ {i j}, waiting'.get? i = some j → waiting.get? i = some j) :
    d.Consistent waiting' :=
  { h with waits := fun hi => h.waits (hfewer hi) }

/-- A number that is not given to a transaction yet is that of no waiting journal. -/
theorem Consistent.not_waiting_next (h : d.Consistent waiting) :
    waiting.get? d.nextTransaction = none := by
  cases hget : waiting.get? d.nextTransaction with
  | none => rfl
  | some j =>
      rcases h.waits hget with ⟨_, t, ht, _⟩
      exact absurd (h.numbered ht).2 (Nat.lt_irrefl _)

/-!
## Changes of one transaction
-/

/-- A transaction that stages nothing may take the place of the one with its number, and its
journal need not wait any more. -/
theorem Consistent.put (h : d.Consistent waiting) (hid : t.work.id = id)
    (hbelow : id < d.nextTransaction) (hj : t.work.journal = {})
    (hrest : ∀ {i j}, waiting'.get? i = some j → i ≠ id ∧ waiting.get? i = some j) :
    (d.putTransaction t).Consistent waiting' where
  wellKept := h.wellKept
  orderedLocks := h.orderedLocks
  orderedTransactions := h.orderedTransactions.insert _ _
  numbered := by
    intro i t' ht'
    exact SortedMap.forall_insert h.orderedTransactions
      (Q := fun i t => t.work.id = i ∧ i < d.nextTransaction) ⟨rfl, by rwa [hid]⟩ h.numbered ht'
  guarded := by
    intro i t' ht'
    refine SortedMap.forall_insert h.orderedTransactions
      (Q := fun i t => d.Guards i t.work.journal) ?_ h.guarded ht'
    rw [hj]
    exact Journal.tracksOnly_empty _ _
  waits := by
    intro i j hi
    rcases hrest hi with ⟨hne, hwaiting⟩
    rcases h.waits hwaiting with ⟨hj, t', ht', hwaits⟩
    refine ⟨hj, t', ?_, hwaits⟩
    change (d.transactions.insert t.work.id t).get? i = some t'
    rw [SortedMap.get?_insert h.orderedTransactions, hid, if_neg hne, ht']

theorem quiet_put (h : d.transactions.Ordered) (hid : t.work.id = id) (hj : t.work.journal = {})
    (hwaiting : waiting.get? id = none) : (d.putTransaction t).Quiet waiting id where
  notWaiting := hwaiting
  nothing := by
    intro t' ht'
    change (d.transactions.insert t.work.id t).get? id = some t' at ht'
    rw [SortedMap.get?_insert h, hid, if_pos rfl] at ht'
    rw [← Option.some.inj ht', hj]

theorem Consistent.releaseLocks (h : d.Consistent waiting) (hquiet : d.Quiet waiting id) :
    (d.releaseLocks id).Consistent waiting := by
  have hothers : ∀ {i j}, i ≠ id → d.Guards i j → (d.releaseLocks id).Guards i j := by
    intro i j hne hj
    apply hj.mono
    intro table hheld
    exact (Locks.holder?_release h.orderedLocks).mpr ⟨hheld, hne⟩
  constructor
  · exact h.wellKept
  · exact h.orderedLocks.filter _
  · exact h.orderedTransactions
  · exact h.numbered
  · intro i t ht
    by_cases heq : i = id
    · rw [heq] at ht
      rw [hquiet.nothing ht]
      exact Journal.tracksOnly_empty _ _
    · exact hothers heq (h.guarded ht)
  · intro i j hi
    exact ⟨hothers (ne_of_notWaiting hquiet.notWaiting hi) (h.waits hi).1, (h.waits hi).2⟩

theorem Consistent.erase (h : d.Consistent waiting) (hwaiting : waiting.get? id = none) :
    ({ d with transactions := d.transactions.erase id } : Database).Consistent waiting where
  wellKept := h.wellKept
  orderedLocks := h.orderedLocks
  orderedTransactions := h.orderedTransactions.erase _
  numbered := by
    intro i t ht
    exact SortedMap.forall_erase h.orderedTransactions
      (Q := fun i t => t.work.id = i ∧ i < d.nextTransaction) h.numbered ht
  guarded := by
    intro i t ht
    exact SortedMap.forall_erase h.orderedTransactions (Q := fun i t => d.Guards i t.work.journal)
      h.guarded ht
  waits := by
    intro i j hi
    rcases h.waits hi with ⟨hj, t, ht, hwaits⟩
    refine ⟨hj, t, ?_, hwaits⟩
    change (d.transactions.erase id).get? i = some t
    rw [SortedMap.get?_erase h.orderedTransactions, if_neg (ne_of_notWaiting hwaiting hi), ht]

theorem quiet_erase (h : d.Consistent waiting) (hwaiting : waiting.get? id = none) :
    ({ d with transactions := d.transactions.erase id } : Database).Quiet waiting id where
  notWaiting := hwaiting
  nothing := by
    intro t ht
    change (d.transactions.erase id).get? id = some t at ht
    rw [SortedMap.get?_erase h.orderedTransactions, if_pos rfl] at ht
    cases ht

/-- Installing a journal leaves the others alone, because no table is locked by two
transactions. -/
theorem Consistent.install (h : d.Consistent waiting) (hquiet : d.Quiet waiting id)
    (hj : d.Guards id j) :
    ({ d with committed := j.install d.committed } : Database).Consistent waiting := by
  have hothers : ∀ {i j'}, i ≠ id → d.Guards i j' →
      ({ d with committed := j.install d.committed } : Database).Guards i j' := by
    intro i j' hne hj'
    refine ⟨hj'.toTracks.of_install hj.toTracks h.wellKept ?_, hj'.within⟩
    intro table hstaged' hstaged
    have hheld := hj'.within hstaged'
    rw [hj.within hstaged] at hheld
    exact hne (Option.some.inj hheld).symm
  constructor
  · exact hj.toTracks.wellKept_install h.wellKept
  · exact h.orderedLocks
  · exact h.orderedTransactions
  · exact h.numbered
  · intro i t ht
    by_cases heq : i = id
    · rw [heq] at ht
      rw [hquiet.nothing ht]
      exact Journal.tracksOnly_empty _ _
    · exact hothers heq (h.guarded ht)
  · intro i j' hi
    exact ⟨hothers (ne_of_notWaiting hquiet.notWaiting hi) (h.waits hi).1, (h.waits hi).2⟩

/-!
## Beginning and ending
-/

/-- What no transaction changes but by a commit. -/
structure Base where
  catalog : Catalog
  committed : Committed
  options : DatabaseOptions
  planner : Planner

def base (d : Database) : Base :=
  { catalog := d.catalog, committed := d.committed, options := d.options, planner := d.planner }

/-- The database is consistent and has the given base. -/
structure Stays (waiting : SortedMap Nat Journal) (x : Base) (d : Database) : Prop where
  consistent : d.Consistent waiting
  base_eq : d.base = x

variable {x : Base}

theorem keeps_begin (mode : AccessMode) : Action.Keeps (Stays waiting x) (begin mode) := by
  intro d h
  have hput := h.consistent
  constructor
  · constructor
    · exact hput.wellKept
    · exact hput.orderedLocks
    · exact hput.orderedTransactions.insert _ _
    · intro i t ht
      exact SortedMap.forall_insert hput.orderedTransactions
        (Q := fun i t => t.work.id = i ∧ i < d.nextTransaction + 1) ⟨rfl, Nat.lt_succ_self _⟩
        (fun ht' => ⟨(hput.numbered ht').1, Nat.lt_succ_of_lt (hput.numbered ht').2⟩) ht
    · intro i t ht
      refine SortedMap.forall_insert hput.orderedTransactions
        (Q := fun i t => d.Guards i t.work.journal) ?_ hput.guarded ht
      exact Journal.tracksOnly_empty _ _
    · intro i j hi
      rcases hput.waits hi with ⟨hj, t, ht, hwaits⟩
      refine ⟨hj, ?_⟩
      change ∃ t', (d.transactions.insert d.nextTransaction _).get? i = some t' ∧ _
      rw [SortedMap.get?_insert hput.orderedTransactions]
      split
      · exact ⟨_, rfl, rfl, rfl⟩
      · exact ⟨t, ht, hwaits⟩
  · exact h.base_eq

theorem perform_abortFor (reason : Failure) (id : Nat) (d : Database) :
    (abortFor reason id).perform d =
      match d.transactions.get? id with
      | none => (.error (.operation (.transactionInactive id)), d)
      | some t =>
          match t.work.phase with
          | .ended ending => (.error (.operation (.transactionEnded t.work.id ending)), d)
          | .active =>
              (.ok (), releaseLocks id (d.putTransaction (Transaction.settle
                { t with work := { t.work with journal := {}, phase := .ended .aborted } }
                (.error reason)))) := by
  unfold abortFor
  rw [Action.perform_bind_ok (Action.perform_get d)]
  unfold transaction
  cases d.transactions.get? id with
  | none => rfl
  | some t =>
      rcases t with ⟨⟨number, mode, journal, phase⟩, outcome⟩
      cases phase with
      | active => rfl
      | ended ending => rfl

theorem keeps_abortFor (hwaiting : waiting.get? id = none) (reason : Failure) :
    Action.Keeps (Stays waiting x) (abortFor reason id) := by
  intro d h
  rw [perform_abortFor]
  split
  · exact h
  · next t ht =>
      split
      · exact h
      · have hnumber : t.work.id = id := (h.consistent.numbered ht).1
        constructor
        · apply Consistent.releaseLocks
          · apply h.consistent.put
            · exact hnumber
            · exact (h.consistent.numbered ht).2
            · rfl
            · exact fun hi => ⟨ne_of_notWaiting hwaiting hi, hi⟩
          · apply quiet_put h.consistent.orderedTransactions
            · exact hnumber
            · rfl
            · exact hwaiting
        · exact h.base_eq

theorem perform_drop (id : Nat) (d : Database) :
    (drop id).perform d =
      match d.transactions.get? id with
      | none => (.error (.operation (.transactionInactive id)), d)
      | some t =>
          (.ok (t.outcome.getD (.error (.transactionAborted id))),
            { d with
              transactions := d.transactions.erase id
              locks := if t.work.isActive then d.locks.release id else d.locks }) := by
  unfold drop
  rw [Action.perform_bind_ok (Action.perform_get d)]
  unfold transaction
  cases d.transactions.get? id with
  | none => rfl
  | some t =>
      simp only [Action.perform_bind, Action.perform_ofOutcome]
      cases t.work.isActive with
      | true => rfl
      | false => rfl

theorem keeps_drop (hwaiting : waiting.get? id = none) :
    Action.Keeps (Stays waiting x) (drop id) := by
  intro d h
  rw [perform_drop]
  split
  · exact h
  · next t ht =>
      have herase := h.consistent.erase hwaiting
      refine ⟨?_, h.base_eq⟩
      cases t.work.isActive with
      | true => exact herase.releaseLocks (quiet_erase h.consistent hwaiting)
      | false => exact herase

/-!
## Statements
-/

theorem accept_eq_ok {s : Statement} {locks : Locks} (h : d.accept t s = .ok locks) :
    t.work.phase = .active ∧ s.check = .ok () ∧
      ((s.target = none ∧ locks = d.locks) ∨
        ∃ table, s.target = some table ∧ t.work.mode = .readWrite ∧
          d.locks.acquire table.name t.work.id = .ok locks) := by
  unfold accept at h
  by_cases hactive : t.work.isActive = true
  · rw [if_neg (by simp [hactive])] at h
    rcases Outcome.bind_eq_ok_iff.mp h with ⟨_, hcheck, htarget⟩
    refine ⟨by simpa [UnitOfWork.isActive] using hactive, hcheck, ?_⟩
    cases hs : s.target with
    | none =>
        rw [hs] at htarget
        cases htarget
        exact Or.inl ⟨rfl, rfl⟩
    | some table =>
        rw [hs] at htarget
        cases hmode : t.work.mode with
        | readOnly =>
            rw [hmode] at htarget
            cases htarget
        | readWrite =>
            rw [hmode] at htarget
            exact Or.inr ⟨table, rfl, rfl, htarget⟩
  · rw [if_pos (by simpa using hactive)] at h
    cases h

theorem Consistent.accept (h : d.Consistent waiting) (ht : d.transactions.get? id = some t)
    {s : Statement} {locks : Locks} (hok : d.accept t s = .ok locks) :
    locks.holders.Ordered ∧ (∀ table, s.target = some table → locks.holder? table.name = some id) ∧
      ∀ {table i}, d.locks.holder? table = some i → locks.holder? table = some i := by
  rcases (accept_eq_ok hok).2.2 with ⟨htarget, rfl⟩ | ⟨table, htarget, _, hacquire⟩
  · refine ⟨h.orderedLocks, ?_, fun hi => hi⟩
    intro table hs
    rw [htarget] at hs
    cases hs
  · rw [(h.numbered ht).1] at hacquire
    rcases Locks.acquire_eq_ok hacquire h.orderedLocks with ⟨hordered, hheld, hmono⟩
    refine ⟨hordered, ?_, hmono⟩
    intro table' hs
    rw [htarget] at hs
    rw [← Option.some.inj hs, hheld]

def ran (d : Database) (t : Transaction) (s : Statement) (locks : Locks) : Database :=
  let space := ((s.run d.planner d.committed).perform { work := t.work, rowIds := d.rowIds }).2
  putTransaction { t with work := space.work } { d with locks := locks, rowIds := space.rowIds }

theorem perform_attach (id : Nat) (s : Statement) (d : Database) :
    (attach id s).perform d =
      match d.transactions.get? id with
      | none => (.error (.operation (.transactionInactive id)), d)
      | some t =>
          match d.accept t s with
          | .error e => (.error e, d)
          | .ok locks =>
              match ((s.run d.planner d.committed).perform
                  { work := t.work, rowIds := d.rowIds }).1 with
              | .ok rows => (.ok rows, d.ran t s locks)
              | .error f => (abortFor f id >>= fun _ => throw f).perform (d.ran t s locks) := by
  unfold attach ran
  rw [Action.perform_bind_ok (Action.perform_get d)]
  unfold transaction
  cases d.transactions.get? id with
  | none => rfl
  | some t =>
      rw [Action.perform_bind_ok (Action.perform_ofOutcome (.ok t) d)]
      dsimp only
      cases d.accept t s with
      | error e => rfl
      | ok locks =>
          rw [Action.perform_bind_ok (Action.perform_ofOutcome (.ok locks) d)]
          rcases (s.run d.planner d.committed).perform { work := t.work, rowIds := d.rowIds } with
            ⟨r, space⟩
          dsimp only
          rw [Action.perform_bind_ok (Action.perform_set d _)]
          cases r with
          | ok rows => rfl
          | error f => rfl

theorem Consistent.going (h : d.Consistent waiting) (ht : d.transactions.get? id = some t)
    {s : Statement} {locks : Locks} (hok : d.accept t s = .ok locks) :
    (((s.run d.planner d.committed).perform { work := t.work, rowIds := d.rowIds }).2).work.Going
      (fun table => locks.holder? table = some id) d.committed id t.work.mode := by
  rcases h.accept ht hok with ⟨_, htarget, hmono⟩
  apply s.keeps_run d.planner h.wellKept htarget
  exact
    { id_eq := (h.numbered ht).1
      mode_eq := rfl
      active := (accept_eq_ok hok).1
      tracks := (h.guarded ht).mono fun table => hmono }

theorem Consistent.get?_ran (h : d.Consistent waiting) (ht : d.transactions.get? id = some t)
    {s : Statement} {locks : Locks} (hok : d.accept t s = .ok locks) :
    (d.ran t s locks).transactions.get? id = some { t with
      work := ((s.run d.planner d.committed).perform
        { work := t.work, rowIds := d.rowIds }).2.work } := by
  have hgoing := h.going ht hok
  unfold Database.ran
  change (d.transactions.insert _ _).get? id = _
  rw [SortedMap.get?_insert h.orderedTransactions, hgoing.id_eq, if_pos rfl]

theorem Consistent.ran (h : d.Consistent waiting) (hwaiting : waiting.get? id = none)
    (ht : d.transactions.get? id = some t) {s : Statement} {locks : Locks}
    (hok : d.accept t s = .ok locks) : (d.ran t s locks).Consistent waiting := by
  rcases h.accept ht hok with ⟨hordered, _, hmono⟩
  have hguards : ∀ {i j}, d.Guards i j → ({ d with locks := locks } : Database).Guards i j :=
    fun hj => hj.mono fun table => hmono
  have hgoing := h.going ht hok
  constructor
  · exact h.wellKept
  · exact hordered
  · exact h.orderedTransactions.insert _ _
  · intro i t' ht'
    refine SortedMap.forall_insert h.orderedTransactions
      (Q := fun i t => t.work.id = i ∧ i < d.nextTransaction) ⟨rfl, ?_⟩ h.numbered ht'
    rw [hgoing.id_eq]
    exact (h.numbered ht).2
  · intro i t' ht'
    refine SortedMap.forall_insert h.orderedTransactions
      (Q := fun i t => ({ d with locks := locks } : Database).Guards i t.work.journal) ?_
      (fun hi => hguards (h.guarded hi)) ht'
    rw [hgoing.id_eq]
    exact hgoing.tracks
  · intro i j hi
    rcases h.waits hi with ⟨hj, t', ht', hwaits⟩
    refine ⟨hguards hj, t', ?_, hwaits⟩
    change (d.transactions.insert _ _).get? i = some t'
    rw [SortedMap.get?_insert h.orderedTransactions, if_neg]
    · exact ht'
    · rw [hgoing.id_eq]
      exact ne_of_notWaiting hwaiting hi

theorem keeps_attach (hwaiting : waiting.get? id = none) (s : Statement) :
    Action.Keeps (Stays waiting x) (attach id s) := by
  intro d h
  rw [perform_attach]
  split
  · exact h
  · next t ht =>
      split
      · exact h
      · next locks hok =>
          have hran : (d.ran t s locks).Stays waiting x :=
            { consistent := h.consistent.ran hwaiting ht hok
              base_eq := h.base_eq }
          split
          · exact hran
          · next f _ =>
              exact ((keeps_abortFor hwaiting f).bind fun _ => Action.keeps_throw f) _ hran

theorem keeps_attachAll {P : Database → Prop} (h : ∀ s, Action.Keeps P (attach id s))
    (statements : List Statement) : Action.Keeps P (Session.attachAll id statements) := by
  induction statements with
  | nil => exact Action.keeps_pure []
  | cons s rest ih => exact (h s).bind fun r => ih.bind fun _ => Action.keeps_pure _

/-!
## Transactions that are there
-/

theorem isSome_put {i : Nat} (h : d.transactions.Ordered)
    (hi : (d.transactions.get? i).isSome = true) (t : Transaction) :
    ((d.putTransaction t).transactions.get? i).isSome = true := by
  change ((d.transactions.insert t.work.id t).get? i).isSome = true
  rw [SortedMap.get?_insert h]
  split
  · rfl
  · exact hi

theorem isSome_attach {i : Nat} (h : d.transactions.Ordered)
    (hi : (d.transactions.get? i).isSome = true) (id : Nat) (s : Statement) :
    (((attach id s).perform d).2.transactions.get? i).isSome = true := by
  rw [perform_attach]
  split
  · exact hi
  · next t ht =>
      split
      · exact hi
      · next locks hok =>
          have hran : ((d.ran t s locks).transactions.get? i).isSome = true :=
            isSome_put (d := { d with locks := locks, rowIds := _ }) h hi _
          have hordered : (d.ran t s locks).transactions.Ordered := h.insert _ _
          split
          · exact hran
          · next f _ =>
              have habort :
                  (((abortFor f id).perform (d.ran t s locks)).2.transactions.get? i).isSome =
                    true := by
                rw [perform_abortFor]
                split
                · exact hran
                · split
                  · exact hran
                  · exact isSome_put hordered hran _
              rcases hperform : (abortFor f id).perform (d.ran t s locks) with ⟨r, d'⟩
              rw [hperform] at habort
              rw [Action.perform_bind, hperform]
              cases r with
              | ok u => exact habort
              | error e => exact habort

end Database

end RelationalDb
