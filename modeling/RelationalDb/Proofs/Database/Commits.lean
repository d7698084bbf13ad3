import Mathlib
import RelationalDb.Proofs.Database.Transactions

/-!
# Commits in two halves

A commit first hands the journal of the transaction over and then writes it to the
backstore.  Between the two other transactions may go on.  A commit without interruption is
the one half right after the other.
-/

namespace RelationalDb

namespace Session

/-- Hand over the journal of a transaction that goes on. -/
def submit (id : Nat) : Action Session Journal := do
  let t ← Action.ofOutcome ((← get).database.transaction id)
  let (prepared, work) := UnitOfWork.prepare.perform t.work
  let j ← Action.ofOutcome prepared
  onDatabase (modify (Database.putTransaction { t with work := work }))
  return j

/-- Write a journal that was handed over, and end its transaction as the backstore answers. -/
def settle (id : Nat) (j : Journal) : Action Session Unit := do
  let t ← Action.ofOutcome ((← get).database.transaction id)
  let written ← Action.attempt (flush j)
  let (settled, work) :=
    match written with
    | .ok () => (UnitOfWork.finish .committed).perform t.work
    | .error _ => (UnitOfWork.finish .aborted).perform t.work
  onDatabase <| modify fun d =>
    Database.releaseLocks id (d.putTransaction (Transaction.settle { t with work := work } written))
  let _ ← Action.ofOutcome settled
  Action.ofOutcome written

variable {s s' : Session} {j : Journal} {id : Nat} {t : Transaction} {r : Outcome Unit}

/-!
## Writing a journal
-/

theorem perform_flush (j : Journal) (s : Session) :
    (flush j).perform s =
      if j.isEmpty then (.ok (), s)
      else
        match (Backstore.write (j.writes s.database.options)).perform s.backstore with
        | (.ok (), b) => (.ok (),
            { backstore := b
              database := { s.database with committed := j.install s.database.committed } })
        | (.error e, b) => (.error e, { s with backstore := b }) := by
  unfold flush
  by_cases hempty : j.isEmpty = true
  · rw [if_pos hempty, if_pos hempty]
    rfl
  · rw [if_neg hempty, if_neg hempty]
    change ((onBackstore (Backstore.write (j.writes s.database.options))) >>= fun _ => _).perform s
      = _
    have hpart : (onBackstore (Backstore.write (j.writes s.database.options))).perform s =
        (((Backstore.write (j.writes s.database.options)).perform s.backstore).1,
          { s with
            backstore := ((Backstore.write (j.writes s.database.options)).perform
              s.backstore).2 }) := rfl
    rcases hwrite : (Backstore.write (j.writes s.database.options)).perform s.backstore with ⟨r, b⟩
    rw [hwrite] at hpart
    cases r with
    | ok u => rw [Action.perform_bind_ok hpart]; rfl
    | error e => rw [Action.perform_bind_error hpart]

theorem flush_cases (h : (flush j).perform s = (r, s')) :
    (j.isEmpty = true ∧ r = .ok () ∧ s' = s) ∨
      (∃ b, (Backstore.write (j.writes s.database.options)).perform s.backstore = (.ok (), b) ∧
        r = .ok () ∧ s' =
          { backstore := b
            database := { s.database with committed := j.install s.database.committed } }) ∨
      (∃ e b, (Backstore.write (j.writes s.database.options)).perform s.backstore = (.error e, b) ∧
        r = .error e ∧ s' = { s with backstore := b }) := by
  rw [perform_flush] at h
  split at h
  · next hempty =>
      cases h
      exact Or.inl ⟨hempty, rfl, rfl⟩
  · split at h
    · next b hwrite =>
        cases h
        exact Or.inr (Or.inl ⟨b, hwrite, rfl, rfl⟩)
    · next e b hwrite =>
        cases h
        exact Or.inr (Or.inr ⟨e, b, hwrite, rfl, rfl⟩)

theorem flush_put (h : (flush j).perform s = (r, s')) (t : Transaction) :
    (flush j).perform { s with database := s.database.putTransaction t } =
      (r, { s' with database := s'.database.putTransaction t }) := by
  rw [perform_flush] at h ⊢
  by_cases hempty : j.isEmpty = true
  · rw [if_pos hempty] at h ⊢
    cases h
    rfl
  · rw [if_neg hempty] at h ⊢
    change (match (Backstore.write (j.writes s.database.options)).perform s.backstore with
      | (.ok (), b) => _
      | (.error e, b) => _) = _
    rcases hwrite : (Backstore.write (j.writes s.database.options)).perform s.backstore with ⟨w, b⟩
    rw [hwrite] at h
    cases w with
    | ok u =>
        cases h
        rfl
    | error e =>
        cases h
        rfl

/-!
## The two halves
-/

def handedOver (t : Transaction) : Transaction :=
  { t with work := { t.work with journal := {} } }

def settled (t : Transaction) (r : Outcome Unit) : Transaction :=
  Transaction.settle
    { t with
      work := { t.work with
        journal := {}
        phase := .ended (match r with | .ok () => .committed | .error _ => .aborted) } } r

theorem perform_submit (id : Nat) (s : Session) :
    (submit id).perform s =
      match s.database.transactions.get? id with
      | none => (.error (.operation (.transactionInactive id)), s)
      | some t =>
          match t.work.phase with
          | .ended ending => (.error (.operation (.transactionEnded t.work.id ending)), s)
          | .active =>
              (.ok t.work.journal,
                { s with database := s.database.putTransaction (handedOver t) }) := by
  unfold submit
  rw [Action.perform_bind_ok (Action.perform_get s)]
  unfold Database.transaction
  cases s.database.transactions.get? id with
  | none => rfl
  | some t =>
      rcases t with ⟨⟨number, mode, journal, phase⟩, outcome⟩
      cases phase with
      | active => rfl
      | ended ending => rfl

theorem perform_settle (ht : s.database.transactions.get? id = some t)
    (hactive : t.work.phase = .active) (h : (flush j).perform s = (r, s')) :
    (settle id j).perform s =
      (r, { s' with
        database := Database.releaseLocks id (s'.database.putTransaction (settled t r)) }) := by
  unfold settle
  rw [Action.perform_bind_ok (Action.perform_get s), Database.transaction_eq_ok_iff.mpr ht,
    Action.perform_bind_ok (Action.perform_ofOutcome (.ok t) s),
    Action.perform_bind_ok (Action.perform_attempt (flush j) s), h]
  rcases t with ⟨⟨number, mode, journal, phase⟩, outcome⟩
  cases hactive
  cases r with
  | ok u => rfl
  | error e => rfl

theorem putTransaction_putTransaction {d : Database} {t₁ t₂ : Transaction}
    (h : t₁.work.id = t₂.work.id) :
    (d.putTransaction t₁).putTransaction t₂ = d.putTransaction t₂ := by
  unfold Database.putTransaction
  rw [h, SortedMap.insert_insert]

/-- A commit without interruption hands the journal over and writes it at once. -/
theorem perform_commit (id : Nat) (s : Session) (hs : s.database.transactions.Ordered)
    (hid : ∀ t, s.database.transactions.get? id = some t → t.work.id = id) :
    (commit id).perform s = (submit id >>= settle id).perform s := by
  rw [Action.perform_bind, perform_submit]
  unfold commit
  rw [Action.perform_bind_ok (Action.perform_get s)]
  unfold Database.transaction
  cases ht : s.database.transactions.get? id with
  | none => rfl
  | some t =>
      have hnumber := hid t ht
      rw [Action.perform_bind_ok (Action.perform_ofOutcome (.ok t) s)]
      cases hphase : t.work.phase with
      | ended ending =>
          rcases t with ⟨⟨number, mode, journal, phase⟩, outcome⟩
          cases hphase
          rfl
      | active =>
          rcases hflush : (flush t.work.journal).perform s with ⟨r, s'⟩
          have hput : ({ s with database := s.database.putTransaction (handedOver t) } :
              Session).database.transactions.get? id = some (handedOver t) := by
            change (s.database.transactions.insert t.work.id (handedOver t)).get? id = _
            rw [SortedMap.get?_insert hs, hnumber, if_pos rfl]
          have hsettle := perform_settle hput hphase (flush_put hflush (handedOver t))
          dsimp only at hsettle
          rw [putTransaction_putTransaction (by rfl)] at hsettle
          rcases t with ⟨⟨number, mode, journal, phase⟩, outcome⟩
          cases hphase
          change (Action.ofOutcome (.ok journal) >>= fun _ => _).perform s =
            (settle id journal).perform _
          rw [hsettle, Action.perform_bind_ok (Action.perform_ofOutcome (.ok journal) s),
            Action.perform_bind_ok (Action.perform_attempt (flush journal) s), hflush]
          cases r with
          | ok u => rfl
          | error e => rfl

theorem perform_commit_of_active (hs : s.database.transactions.Ordered)
    (ht : s.database.transactions.get? id = some t) (hid : t.work.id = id)
    (hactive : t.work.phase = .active) (h : (flush t.work.journal).perform s = (r, s')) :
    (commit id).perform s =
      (r, { s' with
        database := Database.releaseLocks id (s'.database.putTransaction (settled t r)) }) := by
  have hnumbered : ∀ t', s.database.transactions.get? id = some t' → t'.work.id = id := by
    intro t' ht'
    rw [ht] at ht'
    cases ht'
    exact hid
  have hsubmit : (submit id).perform s =
      (.ok t.work.journal, { s with database := s.database.putTransaction (handedOver t) }) := by
    rw [perform_submit, ht]
    dsimp only
    rw [hactive]
  have hput : ({ s with database := s.database.putTransaction (handedOver t) } :
      Session).database.transactions.get? id = some (handedOver t) := by
    change (s.database.transactions.insert t.work.id (handedOver t)).get? id = _
    rw [SortedMap.get?_insert hs, hid, if_pos rfl]
  have hsettle := perform_settle hput hactive (flush_put h (handedOver t))
  dsimp only at hsettle
  rw [putTransaction_putTransaction (by rfl)] at hsettle
  rw [perform_commit id s hs hnumbered, Action.perform_bind_ok hsubmit, hsettle]
  rfl

/-!
## What the halves keep
-/

variable {waiting : SortedMap Nat Journal}

theorem submit_ok (h : s.database.Consistent waiting) (hw : waiting.Ordered)
    (hwaiting : waiting.get? id = none) (hok : (submit id).perform s = (.ok j, s')) :
    s'.database.Consistent (waiting.insert id j) ∧ s'.backstore = s.backstore ∧
      s'.database.base = s.database.base := by
  rw [perform_submit] at hok
  split at hok
  · cases hok
  · next t ht =>
      split at hok
      · cases hok
      · next hactive =>
          cases hok
          have hnumber : t.work.id = id := (h.numbered ht).1
          have hput : (s.database.putTransaction (handedOver t)).Consistent waiting := by
            apply h.put
            · exact hnumber
            · exact (h.numbered ht).2
            · rfl
            · exact fun hi => ⟨Database.ne_of_notWaiting hwaiting hi, hi⟩
          refine ⟨{ hput with waits := ?_ }, rfl, rfl⟩
          intro i j hi
          refine SortedMap.forall_insert hw (Q := fun i j =>
            (s.database.putTransaction (handedOver t)).Guards i j ∧
              ∃ t', (s.database.putTransaction (handedOver t)).transactions.get? i = some t' ∧
                t'.work.phase = .active ∧ t'.work.journal = {}) ?_ hput.waits hi
          refine ⟨h.guarded ht, handedOver t, ?_, hactive, rfl⟩
          change (s.database.transactions.insert t.work.id (handedOver t)).get? id = _
          rw [SortedMap.get?_insert h.orderedTransactions, hnumber, if_pos rfl]

theorem eq_of_submit_error {e : Failure} (hf : (submit id).perform s = (.error e, s')) :
    s' = s := by
  rw [perform_submit] at hf
  split at hf
  · cases hf
    rfl
  · split at hf
    · cases hf
      rfl
    · cases hf

theorem settle_spec (h : s.database.Consistent waiting) (hw : waiting.Ordered)
    (hwaits : waiting.get? id = some j) (hflush : (flush j).perform s = (r, s')) :
    ∃ s'', (settle id j).perform s = (r, s'') ∧ s''.database.Consistent (waiting.erase id) ∧
      s''.backstore = s'.backstore ∧ s''.database.base = s'.database.base ∧
      (s''.database.transactions.get? id).isSome = true := by
  rcases h.waits hwaits with ⟨hj, t, ht, hactive, hempty⟩
  have hsame : s'.database.transactions = s.database.transactions := by
    rcases flush_cases hflush with ⟨_, _, rfl⟩ | ⟨b, _, _, rfl⟩ | ⟨e, b, _, _, rfl⟩
    · rfl
    · rfl
    · rfl
  have hpresent : ((s'.database.putTransaction (settled t r)).transactions.get? id).isSome = true := by
    apply Database.isSome_put
    · rw [hsame]
      exact h.orderedTransactions
    · rw [hsame, ht]
      rfl
  refine ⟨_, perform_settle ht hactive hflush, ?_, rfl, rfl, hpresent⟩
  have hnumber : t.work.id = id := (h.numbered ht).1
  have hnot : (waiting.erase id).get? id = none := by
    rw [SortedMap.get?_erase hw, if_pos rfl]
  have hput : (s.database.putTransaction (settled t r)).Consistent (waiting.erase id) := by
    apply h.put
    · exact hnumber
    · exact (h.numbered ht).2
    · rfl
    · intro i j hi
      rw [SortedMap.get?_erase hw] at hi
      split at hi
      · cases hi
      · next hne => exact ⟨hne, hi⟩
  have hquiet : (s.database.putTransaction (settled t r)).Quiet (waiting.erase id) id := by
    apply Database.quiet_put h.orderedTransactions
    · exact hnumber
    · rfl
    · exact hnot
  rcases flush_cases hflush with ⟨_, _, rfl⟩ | ⟨b, _, _, rfl⟩ | ⟨e, b, _, _, rfl⟩
  · exact hput.releaseLocks hquiet
  · have hinstalled := hput.install hquiet hj
    exact hinstalled.releaseLocks ⟨hquiet.notWaiting, hquiet.nothing⟩
  · exact hput.releaseLocks hquiet

theorem commit_spec (h : s.database.Consistent waiting) (hw : waiting.Ordered)
    (hwaiting : waiting.get? id = none) :
    (∃ e, (commit id).perform s = (.error e, s)) ∨
      ∃ t r s' s'', s.database.transactions.get? id = some t ∧
        (flush t.work.journal).perform s = (r, s') ∧ (commit id).perform s = (r, s'') ∧
        s''.database.Consistent waiting ∧ s''.backstore = s'.backstore ∧
        s''.database.base = s'.database.base ∧
        (s''.database.transactions.get? id).isSome = true := by
  rw [perform_commit id s h.orderedTransactions fun t ht => (h.numbered ht).1]
  rcases hsubmit : (submit id).perform s with ⟨r, s₁⟩
  cases r with
  | error e =>
      rw [Action.perform_bind_error hsubmit, eq_of_submit_error hsubmit]
      exact Or.inl ⟨e, rfl⟩
  | ok j =>
      right
      rw [Action.perform_bind_ok hsubmit]
      have h₁ := (submit_ok h hw hwaiting hsubmit).1
      rw [perform_submit] at hsubmit
      split at hsubmit
      · cases hsubmit
      · next t ht =>
          split at hsubmit
          · cases hsubmit
          · cases hsubmit
            rcases hflush : (flush t.work.journal).perform s with ⟨r, s'⟩
            have hwaits : (waiting.insert id t.work.journal).get? id = some t.work.journal := by
              rw [SortedMap.get?_insert hw, if_pos rfl]
            rcases settle_spec h₁ (hw.insert _ _) hwaits (flush_put hflush (handedOver t)) with
              ⟨s'', hsettle, hconsistent, hrest⟩
            refine ⟨t, r, s', s'', ht, hflush, hsettle, ?_, hrest⟩
            apply hconsistent.fewer
            intro i j hi
            rw [SortedMap.get?_erase (hw.insert _ _), SortedMap.get?_insert hw,
              if_neg (Database.ne_of_notWaiting hwaiting hi),
              if_neg (Database.ne_of_notWaiting hwaiting hi)]
            exact hi

end Session

end RelationalDb
