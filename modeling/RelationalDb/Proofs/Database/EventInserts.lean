import Mathlib
import RelationalDb.Proofs.Database.UsedRowIds

/-!
# Inserts that events come to

Every event comes to some inserts of fresh rows, one after the other.  Nothing else takes row
ids or brings them into use: a commit moves row ids that were staged before.
-/

namespace RelationalDb

namespace Session

def ids (tables : List Table) (s : Session) : Set RowId :=
  s.database.ids ∪ storedIds tables s.backstore.stores

/-- The session takes no row id and brings none into use. -/
structure Calm (tables : List Table) (s s' : Session) : Prop where
  rowIds : s'.database.rowIds = s.database.rowIds
  subset : s'.ids tables ⊆ s.ids tables

variable {s s' : Session} {known tables : List Table} {waiting : SortedMap Nat Journal}
  {id : Nat} {j : Journal} {t : Transaction} {r : Outcome Unit} {l : List FreshInsert}
  {source : RowIdSource} {used : Set RowId}

theorem Calm.refl (tables : List Table) (s : Session) : Calm tables s s where
  rowIds := rfl
  subset := Set.Subset.refl _

theorem Calm.inserting_before (h : Calm tables s s')
    (h' : Inserting s'.database.rowIds (s'.ids tables) l source used) :
    Inserting s.database.rowIds (s.ids tables) l source used := by
  rw [← h.rowIds]
  exact h'.mono h.subset (Set.Subset.refl _)

theorem Calm.inserting_after (h : Calm tables s s')
    (h' : Inserting source used l s.database.rowIds (s.ids tables)) :
    Inserting source used l s'.database.rowIds (s'.ids tables) := by
  rw [h.rowIds]
  exact h'.mono (Set.Subset.refl _) h.subset

theorem Calm.inserting (h : Calm tables s s') :
    Inserting s.database.rowIds (s.ids tables) [] s'.database.rowIds (s'.ids tables) :=
  h.inserting_after (Inserting.nothing (Set.Subset.refl _))

theorem inserting_onDatabase (tables : List Table) {d : Database}
    (h : Inserting s.database.rowIds s.database.ids l d.rowIds d.ids) :
    Inserting s.database.rowIds (s.ids tables) l d.rowIds
      (({ s with database := d } : Session).ids tables) :=
  h.beside (storedIds tables s.backstore.stores)

theorem calm_onDatabase {α : Type} {a : Action Database α}
    (ha : ∀ source used, Action.Keeps (Database.Within source used) a)
    (h : s.database.transactions.Ordered) (tables : List Table) :
    Calm tables s ((onDatabase a).perform s).2 := by
  have hkept := ha _ _ s.database (Database.Within.self h)
  exact ⟨hkept.rowIds, Set.union_subset_union_left _ hkept.subset⟩

/-!
## Commits
-/

theorem ids_flush (hg : s.ground.Declares known) (htables : ∀ t ∈ tables, IsName t.name)
    (hj : j.Tracks s.database.committed) (h : (flush j).perform s = (r, s')) :
    s'.database.rowIds = s.database.rowIds ∧
      s'.database.transactions = s.database.transactions ∧
        s'.ids tables ⊆ s.ids tables ∪ j.ids := by
  rcases flush_cases h with ⟨_, _, rfl⟩ | ⟨b, hwrite, _, rfl⟩ | ⟨e, b, hwrite, _, rfl⟩
  · exact ⟨rfl, rfl, Set.subset_union_left⟩
  · have hstores : b.stores =
        Backstore.storesAfter s.backstore.stores (j.writes s.database.options) := by
      rcases (Backstore.write_cases hwrite).2 with ⟨_, hstores⟩ | ⟨e, he, _⟩
      · exact hstores
      · cases he
    refine ⟨rfl, rfl, ?_⟩
    have hcommitted := Journal.ids_install hj hg.wellKept
    have hstored := storedIds_written hg htables hj s.database.options
    rintro id ((hid | hid) | hid)
    · rcases hcommitted hid with hold | hnew
      · exact Or.inl (Or.inl (Or.inl hold))
      · exact Or.inr hnew
    · exact Or.inl (Or.inl (Or.inr hid))
    · rw [hstores] at hid
      rcases hstored hid with hold | hnew
      · exact Or.inl (Or.inr hold)
      · exact Or.inr hnew
  · have hstores : b.stores = s.backstore.stores := by
      rcases (Backstore.write_cases hwrite).2 with ⟨he, _⟩ | ⟨_, _, hstores⟩
      · cases he
      · exact hstores
    refine ⟨rfl, rfl, ?_⟩
    unfold ids
    dsimp only
    rw [hstores]
    exact Set.subset_union_left

theorem ids_ended (hg : s.ground.Declares known) (htables : ∀ t ∈ tables, IsName t.name)
    (hj : j.Tracks s.database.committed) (hordered : s.database.transactions.Ordered)
    (h : (flush j).perform s = (r, s')) (id : Nat) (t : Transaction) :
    let ended : Session := { s' with
      database := Database.releaseLocks id (s'.database.putTransaction (settled t r)) }
    ended.database.rowIds = s.database.rowIds ∧ ended.ids tables ⊆ s.ids tables ∪ j.ids := by
  rcases ids_flush hg htables hj h with ⟨hrowIds, htransactions, hids⟩
  have hput : (s'.database.putTransaction (settled t r)).ids ⊆ s'.database.ids := by
    apply Database.ids_put_nothing _ (by rfl)
    rw [htransactions]
    exact hordered
  exact ⟨hrowIds, (Set.union_subset_union_left _ hput).trans hids⟩

theorem calm_commit (hg : s.ground.Declares known) (htables : ∀ t ∈ tables, IsName t.name)
    (h : s.database.Consistent waiting) (id : Nat) :
    Calm tables s ((commit id).perform s).2 := by
  have hnumbered : ∀ t, s.database.transactions.get? id = some t → t.work.id = id :=
    fun t ht => (h.numbered ht).1
  have hsubmit := perform_submit id s
  have hcommit := perform_commit id s h.orderedTransactions hnumbered
  cases ht : s.database.transactions.get? id with
  | none =>
      rw [ht] at hsubmit
      rw [hcommit, Action.perform_bind_error hsubmit]
      exact Calm.refl tables s
  | some t =>
      rw [ht] at hsubmit
      dsimp only at hsubmit
      cases hphase : t.work.phase with
      | ended ending =>
          rw [hphase] at hsubmit
          rw [hcommit, Action.perform_bind_error hsubmit]
          exact Calm.refl tables s
      | active =>
          have hj := (h.guarded ht).toTracks
          rcases hflush : (flush t.work.journal).perform s with ⟨r, s'⟩
          rw [perform_commit_of_active h.orderedTransactions ht (hnumbered t ht) hphase hflush]
          rcases ids_ended hg htables hj h.orderedTransactions hflush id t with ⟨hrowIds, hids⟩
          have hjournal : t.work.journal.ids ⊆ s.ids tables :=
            (Database.journal_ids_subset ht).trans Set.subset_union_left
          exact ⟨hrowIds, hids.trans (Set.union_subset (Set.Subset.refl _) hjournal)⟩

theorem ids_submit (tables : List Table) (h : s.database.transactions.Ordered)
    (hok : (submit id).perform s = (.ok j, s')) :
    Calm tables s s' ∧ j.ids ⊆ s.ids tables := by
  rw [perform_submit] at hok
  split at hok
  · cases hok
  · next t ht =>
      split at hok
      · cases hok
      · cases hok
        have hput : (s.database.putTransaction (handedOver t)).ids ⊆ s.database.ids :=
          Database.ids_put_nothing h rfl
        refine ⟨⟨rfl, Set.union_subset_union_left _ hput⟩, ?_⟩
        exact (Database.journal_ids_subset ht).trans Set.subset_union_left

theorem ids_settle (hg : s.ground.Declares known) (htables : ∀ t ∈ tables, IsName t.name)
    (h : s.database.Consistent waiting) (hwaits : waiting.get? id = some j) :
    ((settle id j).perform s).2.database.rowIds = s.database.rowIds ∧
      ((settle id j).perform s).2.ids tables ⊆ s.ids tables ∪ j.ids := by
  rcases h.waits hwaits with ⟨hj, t, ht, hactive, _⟩
  rcases hflush : (flush j).perform s with ⟨r, s'⟩
  rw [perform_settle ht hactive hflush]
  exact ids_ended hg htables hj.toTracks h.orderedTransactions hflush id t

/-!
## Executions
-/

theorem inserting_execute (hg : s.ground.Declares known) (htables : ∀ t ∈ tables, IsName t.name)
    (h : s.database.Consistent waiting) (hwaiting : waiting.get? id = none)
    (statements : List Statement) :
    Inserting s.database.rowIds (s.ids tables) (Database.insertsAll id statements s.database)
      ((execute id statements).perform s).2.database.rowIds
      (((execute id statements).perform s).2.ids tables) := by
  have hattached := onDatabase_spec
    (fun x => Database.keeps_attachAll (Database.keeps_attach hwaiting) statements) h
  rw [perform_onDatabase] at hattached
  rcases hall : (attachAll id statements).perform s.database with ⟨r, d⟩
  rw [hall] at hattached
  have hinserted := Database.inserted_attachAll h hwaiting statements hall
  have hinserting := inserting_onDatabase tables hinserted.inserting
  have hground : ({ s with database := d } : Session).ground.Declares known :=
    hattached.2.symm ▸ hg
  unfold execute
  rw [Action.perform_bind_ok (Action.perform_attempt _ s), perform_onDatabase, hall]
  cases r with
  | error f =>
      have haborted := calm_onDatabase (s := { s with database := d })
        (fun source used => Database.keeps_within_abortFor f id)
        hattached.1.orderedTransactions tables
      exact haborted.inserting_after hinserting
  | ok results =>
      have hcommitted := calm_commit hground htables hattached.1 id
      dsimp only
      rw [Action.perform_bind_pure (commit id) fun _ => results]
      exact hcommitted.inserting_after hinserting

theorem inserting_attach_commit (hg : s.ground.Declares known)
    (htables : ∀ t ∈ tables, IsName t.name) (h : s.database.Consistent waiting)
    (hwaiting : waiting.get? id = none) (st : Statement) {r : Outcome ResultSet}
    (hrun : (do
      let rows ← onDatabase (Database.attach id st)
      commit id
      return rows : Action Session ResultSet).perform s = (r, s')) :
    Inserting s.database.rowIds (s.ids tables) (s.database.inserts id st) s'.database.rowIds
      (s'.ids tables) := by
  have hattached := onDatabase_spec (fun x => Database.keeps_attach hwaiting st) h
  have hperform := perform_onDatabase (Database.attach id st) s
  rcases hattach : (Database.attach id st).perform s.database with ⟨ra, d⟩
  have hinserted := Database.inserted_attach h id st hattach
  have hinserting := inserting_onDatabase tables hinserted.inserting
  rw [hattach] at hperform
  rw [hperform] at hattached
  cases ra with
  | error f =>
      rw [Action.perform_bind_error hperform] at hrun
      cases hrun
      exact hinserting
  | ok rows =>
      have hground : ({ s with database := d } : Session).ground.Declares known :=
        hattached.2.symm ▸ hg
      have hcommitted := calm_commit hground htables hattached.1 id
      rw [Action.perform_bind_ok hperform, Action.perform_bind_pure (commit id) fun _ => rows]
        at hrun
      cases hrun
      exact hcommitted.inserting_after hinserting

def insertsAlone (st : Statement) (d : Database) : List FreshInsert :=
  match st.check with
  | .error _ => []
  | .ok () => ((Database.begin st.mode).perform d).2.inserts d.nextTransaction st

theorem inserting_executeAlone (hg : s.ground.Declares known)
    (htables : ∀ t ∈ tables, IsName t.name) (h : s.database.Consistent waiting)
    (hw : waiting.Ordered) (st : Statement) :
    Inserting s.database.rowIds (s.ids tables) (insertsAlone st s.database)
      ((executeAlone st).perform s).2.database.rowIds
      (((executeAlone st).perform s).2.ids tables) := by
  unfold executeAlone insertsAlone
  cases hcheck : st.check with
  | error e =>
      rw [Action.perform_bind_error (Action.perform_ofOutcome (.error e) s)]
      exact (Calm.refl tables s).inserting
  | ok u =>
      rw [Action.perform_bind_ok (Action.perform_ofOutcome (.ok u) s)]
      have hbegun := onDatabase_spec (fun x => Database.keeps_begin st.mode) h
      have hcalm := calm_onDatabase (a := Database.begin st.mode)
        (fun source used => Database.keeps_within_begin st.mode)
        h.orderedTransactions tables
      rw [perform_begin] at hbegun hcalm
      have hsome := isSome_begin h.orderedTransactions st.mode
      have hground : ({ s with database := ((Database.begin st.mode).perform s.database).2 } :
          Session).ground.Declares known := hbegun.2.symm ▸ hg
      rw [Action.perform_bind_ok (perform_begin st.mode s),
        Action.perform_bind_ok (Action.perform_attempt _ _)]
      rcases hrun : (do
          let rows ← onDatabase (Database.attach s.database.nextTransaction st)
          commit s.database.nextTransaction
          return rows : Action Session ResultSet).perform
            { s with database := ((Database.begin st.mode).perform s.database).2 } with ⟨r, s₁⟩
      have hserves := serves_attach_commit hbegun.1 hw h.not_waiting_next hsome st hrun
      have hinserting := inserting_attach_commit hground htables hbegun.1 h.not_waiting_next st hrun
      have hdropped := calm_onDatabase (s := s₁)
        (fun source used => Database.keeps_within_drop s.database.nextTransaction)
        hserves.1.consistent.orderedTransactions tables
      dsimp only
      rw [Action.perform_bind_ofOutcome]
      exact hcalm.inserting_before (hdropped.inserting_after hinserting)

end Session

/-!
## Events
-/

def Request.inserts (d : Database) : Request → List FreshInsert
  | attach id s => d.inserts id s
  | execute id statements => Database.insertsAll id statements d
  | executeAlone s => Session.insertsAlone s d
  | _ => []

theorem Request.inserting_action {s : Session} {known tables : List Table}
    {waiting : SortedMap Nat Journal} (r : Request) (hg : s.ground.Declares known)
    (htables : ∀ t ∈ tables, IsName t.name) (h : s.database.Consistent waiting)
    (hw : waiting.Ordered) (hwaiting : ∀ id, r.transaction? = some id → waiting.get? id = none) :
    Inserting s.database.rowIds (s.ids tables) (r.inserts s.database)
      (r.action.perform s).2.database.rowIds ((r.action.perform s).2.ids tables) := by
  cases r with
  | begin mode =>
      have hcalm := Session.calm_onDatabase (a := Database.begin mode)
        (fun source used => Database.keeps_within_begin mode)
        h.orderedTransactions tables
      exact hcalm.inserting
  | attach id st =>
      rcases hattach : (Database.attach id st).perform s.database with ⟨r, d⟩
      have hinserted := Database.inserted_attach h id st hattach
      have hsession := Session.inserting_onDatabase tables hinserted.inserting
      unfold action
      rw [Action.perform_discard, Session.perform_onDatabase, hattach]
      exact hsession
  | execute id statements =>
      unfold action
      rw [Action.perform_discard]
      exact Session.inserting_execute hg htables h (hwaiting id rfl) statements
  | executeAlone st =>
      unfold action
      rw [Action.perform_discard]
      exact Session.inserting_executeAlone hg htables h hw st
  | commit id => exact (Session.calm_commit hg htables h id).inserting
  | abort id =>
      have hcalm := Session.calm_onDatabase (a := Database.abort id)
        (fun source used => Database.keeps_within_abortFor (.transactionAborted id) id)
        h.orderedTransactions tables
      exact hcalm.inserting
  | drop id =>
      have hcalm := Session.calm_onDatabase (a := Database.drop id)
        (fun source used => Database.keeps_within_drop id)
        h.orderedTransactions tables
      unfold action
      rw [Action.perform_discard]
      exact hcalm.inserting
  | failAt call message => exact (Session.Calm.refl tables s).inserting
  | repair => exact (Session.Calm.refl tables s).inserting

def waitingIds (waiting : SortedMap Nat Journal) : Set RowId :=
  { id | ∃ i j, waiting.get? i = some j ∧ id ∈ j.ids }

section Waiting

variable {waiting : SortedMap Nat Journal}

theorem waitingIds_insert (h : waiting.Ordered) (i : Nat) (j : Journal) :
    waitingIds (waiting.insert i j) ⊆ j.ids ∪ waitingIds waiting := by
  rintro id ⟨i', j', hj', hid⟩
  exact SortedMap.forall_insert h (Q := fun _ j' => j'.ids ⊆ j.ids ∪ waitingIds waiting)
    Set.subset_union_left (fun hget id hid => Or.inr ⟨_, _, hget, hid⟩) hj' hid

theorem waitingIds_erase (h : waiting.Ordered) (i : Nat) :
    waitingIds (waiting.erase i) ⊆ waitingIds waiting := by
  rintro id ⟨i', j', hj', hid⟩
  exact SortedMap.forall_erase h (Q := fun _ j' => j'.ids ⊆ waitingIds waiting)
    (fun hget id hid => ⟨_, _, hget, hid⟩) hj' hid

end Waiting

namespace Service

def ids (tables : List Table) (v : Service) : Set RowId :=
  v.session.ids tables ∪ waitingIds v.waiting

def insertsOf (v : Service) : Event → List FreshInsert
  | .request r => if r.transaction?.any v.waiting.contains then [] else r.inserts v.session.database
  | _ => []

def inserts (v : Service) : List Event → List FreshInsert
  | [] => []
  | e :: rest => v.insertsOf e ++ (v.step e).inserts rest

variable {v : Service} {known tables : List Table}

theorem inserting_submit (h : v.Consistent) (tables : List Table) (id : Nat) :
    Inserting v.session.database.rowIds (v.ids tables) []
      (v.step (.submit id)).session.database.rowIds ((v.step (.submit id)).ids tables) := by
  unfold step
  dsimp only
  split
  · exact Inserting.nothing (Set.Subset.refl _)
  · split
    · next j s hsubmit =>
        rcases Session.ids_submit tables h.database.orderedTransactions hsubmit with ⟨hcalm, hj⟩
        dsimp only
        rw [hcalm.rowIds]
        apply Inserting.nothing
        apply Set.union_subset
        · exact hcalm.subset.trans Set.subset_union_left
        · apply (waitingIds_insert h.ordered id j).trans
          exact Set.union_subset_union_left _ hj
    · next e s hsubmit =>
        rw [Session.eq_of_submit_error hsubmit]
        exact Inserting.nothing (Set.Subset.refl _)

theorem inserting_settle (h : v.Consistent) (hg : v.session.ground.Declares known)
    (htables : ∀ t ∈ tables, IsName t.name) (id : Nat) :
    Inserting v.session.database.rowIds (v.ids tables) []
      (v.step (.settle id)).session.database.rowIds ((v.step (.settle id)).ids tables) := by
  unfold step
  dsimp only
  split
  · exact Inserting.nothing (Set.Subset.refl _)
  · next j hwaits =>
      have hj : j.ids ⊆ waitingIds v.waiting := fun _ hid => ⟨id, j, hwaits, hid⟩
      rcases Session.ids_settle hg htables h.database hwaits with ⟨hrowIds, hids⟩
      have hsubset : ((Session.settle id j).perform v.session).2.ids tables ∪
          waitingIds (v.waiting.erase id) ⊆ v.ids tables := by
        apply Set.union_subset
        · exact hids.trans (Set.union_subset_union_right _ hj)
        · exact (waitingIds_erase h.ordered id).trans Set.subset_union_right
      rcases hsettle : (Session.settle id j).perform v.session with ⟨r, s⟩
      rw [hsettle] at hrowIds hsubset
      cases r with
      | ok u =>
          dsimp only
          rw [hrowIds]
          exact Inserting.nothing hsubset
      | error e =>
          dsimp only
          rw [hrowIds]
          exact Inserting.nothing hsubset

/-- Every event comes to some inserts of fresh rows, and nothing else brings row ids into use. -/
theorem inserting_step (h : v.Consistent) (hg : v.session.ground.Declares known)
    (htables : ∀ t ∈ tables, IsName t.name) (e : Event) :
    Inserting v.session.database.rowIds (v.ids tables) (v.insertsOf e)
      (v.step e).session.database.rowIds ((v.step e).ids tables) := by
  cases e with
  | request r =>
      rw [step_request]
      unfold insertsOf
      by_cases hblocked : r.transaction?.any v.waiting.contains = true
      · rw [if_pos hblocked]
        dsimp only
        rw [if_pos hblocked]
        exact Inserting.nothing (Set.Subset.refl _)
      · rw [if_neg hblocked]
        dsimp only
        rw [if_neg hblocked]
        have hinserting := r.inserting_action hg htables h.database h.ordered (not_waiting hblocked)
        exact hinserting.beside (waitingIds v.waiting)
  | submit id => exact inserting_submit h tables id
  | settle id => exact inserting_settle h hg htables id
  | withdraw id =>
      apply Inserting.nothing
      exact Set.union_subset_union_right _ (waitingIds_erase h.ordered id)

end Service

end RelationalDb
