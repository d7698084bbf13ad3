import Mathlib
import RelationalDb.Proofs.Database.InOrder
import RelationalDb.Proofs.Database.Mirrors

/-!
# All or nothing

Statements that are executed together either all take effect, in the committed tables and in the
backstore, or none of them does.
-/

namespace RelationalDb

/-- Under every id, the rows in two places stay as they are in both, or are the same in both
afterwards. -/
def RowMap.ChangeAlike (rows rows' m m' : RowMap) : Prop :=
  ∀ id, (rows'.get? id = rows.get? id ∧ m'.get? id = m.get? id) ∨ m'.get? id = rows'.get? id

/-- The stores stand in the order of their names, and the rows in each of them in that of their
ids. -/
structure Backstore.WellFormed (b : Backstore) : Prop where
  ordered : b.stores.Ordered
  rows : ∀ {name : String} {m : RowMap}, b.stores.get? name = some m → m.Ordered

namespace Journal

variable {j : Journal} {committed : Committed} {table : String} {base : TableStore} {m : RowMap}

theorem Tracks.changeAlike_overlay (h : j.Tracks committed) (hc : committed.WellKept)
    (hbase : committed.store? table = some base) (hm : m.Ordered) :
    RowMap.ChangeAlike base.rows (j.overlay table base.rows) m (j.overlay table m) := by
  intro id
  unfold overlay
  cases hchanges : j.changes.get? table with
  | none => exact Or.inl ⟨rfl, rfl⟩
  | some c =>
      rcases h.recorded hchanges with ⟨s, hs⟩
      rcases h.staged hs with ⟨base', c', hbase', hchanges', _, hfrom⟩
      rw [hbase] at hbase'
      rw [hchanges] at hchanges'
      cases hbase'
      cases hchanges'
      dsimp only
      rw [hfrom.net.applyTo_eq (hc.keyed hbase).ordered hfrom.keyed.ordered hfrom.keyed.id_eq]
      rcases hfrom.net.get?_applyTo_cases hm hfrom.keyed.id_eq id with hsame | ⟨hkept, hkept'⟩
      · exact Or.inr hsame
      · exact Or.inl ⟨hkept', hkept⟩

end Journal

namespace Ground

variable {g g' : Ground} {journals : List Journal} {tables : List Table}

theorem Moves.eq_of_nil (h : g.Moves g' []) : g' = g := by
  cases h
  rfl

theorem Moves.declared (h : g.Moves g' journals) (hc : g.base.committed.WellKept)
    (hd : g.base.committed.Declared tables) : g'.base.committed.Declared tables := by
  cases h with
  | quiet => exact hd
  | empty j hj hempty => exact hd
  | written j hj =>
      have hstore : ∀ {name : String} {s : TableStore},
          (j.install g.base.committed).store? name = some s →
            ∃ base, g.base.committed.store? name = some base ∧ s.table = base.table ∧
              Journal.indexNames s = Journal.indexNames base := by
        intro name s hs
        rw [hj.store?_install hc, Journal.store?_view] at hs
        split at hs
        · next hstaged =>
            cases hs
            rcases hj.staged hstaged with ⟨base, _, hbase, _, _, hfrom⟩
            exact ⟨base, hbase, hfrom.table_eq, hfrom.names⟩
        · exact ⟨s, hs, rfl, rfl⟩
      constructor
      · intro name s hs
        rcases hstore hs with ⟨base, hbase, htable, _⟩
        rw [htable]
        exact hd.known hbase
      · intro name s hs
        rcases hstore hs with ⟨base, hbase, htable, hnames⟩
        exact (hd.qualified hbase).of_names htable hnames

end Ground

namespace Session

variable {s s' : Session} {j : Journal} {tables : List Table}

theorem flush_ok (h : (flush j).perform s = (.ok (), s')) (hj : j.Tracks s.database.committed)
    (hc : s.database.committed.WellKept) (hd : s.database.committed.Declared tables)
    (hstores : s.backstore.stores.Ordered) :
    (∀ table, s'.database.committed.rows? table =
      (s.database.committed.rows? table).map (j.overlay table)) ∧
    ∀ (t : Table) (m : RowMap), IsName t.name → s.backstore.stores.get? t.name = some m →
      s'.backstore.stores.get? t.name = some (j.overlay t.name m) := by
  rcases flush_cases h with ⟨hempty, _, rfl⟩ | ⟨b, hwrite, _, rfl⟩ | ⟨e, b, _, herror, _⟩
  · constructor
    · intro table
      have hsame : j.overlay table = id := funext (Journal.overlay_of_isEmpty hj hempty table)
      rw [hsame, Option.map_id]
      rfl
    · intro t m _ hm
      rw [hm, Journal.overlay_of_isEmpty hj hempty]
  · refine ⟨hj.rows_install hc, ?_⟩
    intro t m ht hm
    rcases (Backstore.write_cases hwrite).2 with ⟨_, hwritten⟩ | ⟨e, he, _⟩
    · dsimp only
      rw [hwritten]
      exact Ground.get?_written_table (g := s.ground) hstores hj hd ht hm _
    · cases he
  · cases herror

/-- All statements have taken effect.  They succeed one after the other, with the same results,
the committed rows are those that they leave, and the rows of the backstore have changed in the
same way. -/
structure Effected (before after : Session) (statements : List Statement)
    (results : List ResultSet) : Prop where
  inOrder : ∃ x,
    (Tables.runAll before.database.planner statements).perform
      { committed := before.database.committed, rowIds := before.database.rowIds } =
        (.ok results, x) ∧
      ∀ table, after.database.committed.rows? table = x.committed.rows? table
  written : ∀ {table : String} {rows rows' m : RowMap},
    before.database.committed.rows? table = some rows →
      after.database.committed.rows? table = some rows' →
        before.backstore.stores.get? table = some m →
          ∃ m', after.backstore.stores.get? table = some m' ∧
            RowMap.ChangeAlike rows rows' m m' ∧ (m = rows → m' = rows')

/-- No statement has taken effect.  The transaction is aborted and holds no lock. -/
structure Undone (before after : Session) (id : Nat) : Prop where
  committed : after.database.committed = before.database.committed
  stores : after.backstore.stores = before.backstore.stores
  aborted : ∃ t, after.database.transaction id = .ok t ∧ t.work.phase = .ended .aborted
  unlocked : ∀ table, after.database.locks.holder? table ≠ some id

/-- Why statements cannot take effect: one of them fails when they run one after the other, or its
table is locked by another transaction, or what they stage cannot be written. -/
def Fails (s : Session) (id : Nat) (statements : List Statement) (e : Failure) : Prop :=
  ((Tables.runAll s.database.planner statements).perform
    { committed := s.database.committed, rowIds := s.database.rowIds }).1 = .error e ∨
  s.database.Locked id statements e ∨
  ((Backstore.write ((((attachAll id statements).perform s.database).2.journalOf id).writes
    s.database.options)).perform s.backstore).1 = .error e

variable {waiting : SortedMap Nat Journal} {x : Database} {id : Nat} {t : Transaction}
  {statements : List Statement} {e : Failure} {results : List ResultSet}

theorem perform_execute_error {d : Database}
    (hall : (attachAll id statements).perform s.database = (.error e, d)) :
    (execute id statements).perform s =
      (.error e, { s with database := ((Database.abortFor e id).perform d).2 }) := by
  unfold execute
  rw [Action.perform_bind_ok (Action.perform_attempt _ s), perform_onDatabase, hall]
  rfl

theorem perform_execute_ok {d : Database}
    (hall : (attachAll id statements).perform s.database = (.ok results, d)) :
    (execute id statements).perform s =
      (((commit id).perform { s with database := d }).1.map fun _ => results,
        ((commit id).perform { s with database := d }).2) := by
  unfold execute
  rw [Action.perform_bind_ok (Action.perform_attempt _ s), perform_onDatabase, hall]
  dsimp only
  rw [Action.perform_bind]
  rcases (commit id).perform { s with database := d } with ⟨r, s'⟩
  cases r with
  | error e => rfl
  | ok u => rfl

/-- A managed session whose tables are declared in a catalog, with a transaction that goes on and
has staged nothing. -/
structure Ready (waiting : SortedMap Nat Journal) (x : Database) (tables : List Table) (id : Nat)
    (s : Session) : Prop where
  manages : s.Manages waiting x
  orderedWaiting : waiting.Ordered
  notWaiting : waiting.get? id = none
  follows : s.database.Follows id
    { committed := s.database.committed, rowIds := s.database.rowIds }
  declared : s.database.committed.Declared tables
  wellFormed : ∀ t ∈ tables, t.WellFormed
  backstore : s.backstore.WellFormed

variable {d : Database}

theorem Ready.stays (h : s.Ready waiting x tables id)
    (hall : ((attachAll id statements).perform s.database).2 = d) :
    d.Stays waiting s.database.base := by
  rw [← hall]
  exact Database.keeps_attachAll (Database.keeps_attach h.notWaiting) statements s.database
    ⟨h.manages.consistent, rfl⟩

theorem Ready.undone (h : s.Ready waiting x tables id)
    (hexecute : (execute id statements).perform s = (.error e, s'))
    (ht : s'.database.transactions.get? id = some t) (hended : t.work.phase = .ended .aborted) :
    Undone s s' id := by
  have hserves := serves_execute h.manages.consistent h.orderedWaiting h.notWaiting statements
  have hmanaged := keeps_execute (x := x) h.orderedWaiting h.notWaiting statements s h.manages
  rw [hexecute] at hserves hmanaged
  have hground : s'.ground = s.ground := hserves.moves.eq_of_nil
  refine ⟨?_, congrArg Ground.stores hground, ⟨t, Database.transaction_eq_ok_iff.mpr ht, hended⟩, ?_⟩
  · exact congrArg (fun g : Ground => g.base.committed) hground
  · intro table hheld
    rcases hmanaged.orderly.locked hheld with ⟨t', ht', _, hactive⟩
    rw [ht] at ht'
    cases ht'
    rw [hended] at hactive
    cases hactive

theorem Ready.undone_of_attachAll (h : s.Ready waiting x tables id)
    (hall : (attachAll id statements).perform s.database = (.error e, d)) :
    ∃ s', (execute id statements).perform s = (.error e, s') ∧ Undone s s' id ∧
      Fails s id statements e := by
  have hd := h.stays (congrArg Prod.snd hall)
  rcases h.follows.attachAll_error h.manages.consistent h.notWaiting hall with
    ⟨hcause, t, ht, hphase⟩
  have haborted : ∃ t', ((Database.abortFor e id).perform d).2.transactions.get? id = some t' ∧
      t'.work.phase = .ended .aborted := by
    rcases hphase with hgoing | hended
    · rcases Database.abortFor_of_active (f := e) hd.consistent.orderedTransactions ht
        (hd.consistent.numbered ht).1 hgoing with ⟨d', t', habort, ht', hended⟩
      rw [habort]
      exact ⟨t', ht', hended⟩
    · rw [Database.perform_abortFor, ht]
      dsimp only
      rw [hended]
      exact ⟨t, ht, hended⟩
  rcases haborted with ⟨t', ht', hended⟩
  refine ⟨_, perform_execute_error hall, h.undone (perform_execute_error hall) ht' hended, ?_⟩
  rcases hcause with hrun | hlocked
  · exact Or.inl hrun
  · exact Or.inr (Or.inl hlocked)

theorem Ready.undone_of_flush (h : s.Ready waiting x tables id)
    (hall : (attachAll id statements).perform s.database = (.ok results, d))
    (ht : d.transactions.get? id = some t) (hactive : t.work.phase = .active)
    (hflush : (flush t.work.journal).perform { s with database := d } = (.error e, s')) :
    ∃ s'', (execute id statements).perform s = (.error e, s'') ∧ Undone s s'' id ∧
      Fails s id statements e := by
  have hd := h.stays (congrArg Prod.snd hall)
  have hid := (hd.consistent.numbered ht).1
  have hexecute := perform_execute_ok hall
  rw [perform_commit_of_active (s := { s with database := d }) hd.consistent.orderedTransactions ht
    hid hactive hflush] at hexecute
  rcases flush_cases hflush with ⟨_, herror, _⟩ | ⟨_, _, herror, _⟩ | ⟨e', b, hwrite, herror, rfl⟩
  · cases herror
  · cases herror
  · cases herror
    have hended : (d.putTransaction (settled t (.error e))).transactions.get? id =
        some (settled t (.error e)) := by
      change (d.transactions.insert t.work.id _).get? id = _
      rw [SortedMap.get?_insert hd.consistent.orderedTransactions, if_pos hid.symm]
    refine ⟨_, hexecute, h.undone hexecute hended rfl, Or.inr (Or.inr ?_)⟩
    have hjournal : d.journalOf id = t.work.journal := by
      unfold Database.journalOf
      rw [ht]
      rfl
    have hoptions : d.options = s.database.options := congrArg Database.Base.options hd.base_eq
    dsimp only at hwrite
    rw [hall, hjournal, ← hoptions, hwrite]

theorem Ready.effected (h : s.Ready waiting x tables id)
    (hall : (attachAll id statements).perform s.database = (.ok results, d))
    (ht : d.transactions.get? id = some t) (hactive : t.work.phase = .active)
    (hflush : (flush t.work.journal).perform { s with database := d } = (.ok (), s')) :
    ∃ s'', (execute id statements).perform s = (.ok results, s'') ∧
      Effected s s'' statements results := by
  have hd := h.stays (congrArg Prod.snd hall)
  have hcommitted : d.committed = s.database.committed :=
    congrArg Database.Base.committed hd.base_eq
  have hexecute := perform_execute_ok hall
  rw [perform_commit_of_active (s := { s with database := d }) hd.consistent.orderedTransactions ht
    (hd.consistent.numbered ht).1 hactive hflush] at hexecute
  refine ⟨_, hexecute, ?_⟩
  have hwellKept := hd.consistent.wellKept
  have htracks := (hd.consistent.guarded ht).toTracks
  have hdeclared := hcommitted.symm ▸ h.declared
  rcases flush_ok hflush htracks hwellKept hdeclared h.backstore.ordered with ⟨hinstalled, hwritten⟩
  constructor
  · rcases h.follows.attachAll_ok h.manages.consistent h.notWaiting hall with ⟨x', hrun, hfollows⟩
    rcases hfollows.going with ⟨t', ht', _, _, hsees⟩
    rw [ht] at ht'
    cases ht'
    refine ⟨x', hrun, fun table => ?_⟩
    have hview := htracks.rows_view hwellKept table
    exact (hinstalled table).trans
      (hview.symm.trans (congrArg (Option.map (·.rows)) (hsees table).symm))
  · intro table rows rows' m hrows hrows' hm
    rw [← hcommitted] at hrows
    have hoverlay := (hinstalled table).symm.trans hrows'
    dsimp only at hoverlay
    rw [hrows] at hoverlay
    cases hoverlay
    cases hbase : d.committed.store? table with
    | none =>
        unfold Committed.rows? at hrows
        rw [hbase] at hrows
        cases hrows
    | some base =>
        unfold Committed.rows? at hrows
        rw [hbase] at hrows
        cases hrows
        rcases hwellKept.named hbase with rfl
        have hname := (h.wellFormed _ (hdeclared.known hbase)).named
        have halike := htracks.changeAlike_overlay hwellKept hbase (h.backstore.rows hm)
        refine ⟨_, hwritten base.table m hname hm, halike, ?_⟩
        rintro rfl
        rfl

theorem Ready.execute_cases (h : s.Ready waiting x tables id) (statements : List Statement) :
    match (execute id statements).perform s with
    | (.ok results, s') => Effected s s' statements results
    | (.error e, s') => Undone s s' id ∧ Fails s id statements e := by
  rcases hall : (attachAll id statements).perform s.database with ⟨r, d⟩
  cases r with
  | error e =>
      rcases h.undone_of_attachAll hall with ⟨s', hexecute, hundone⟩
      rw [hexecute]
      exact hundone
  | ok results =>
      rcases h.follows.attachAll_ok h.manages.consistent h.notWaiting hall with ⟨_, _, hfollows⟩
      rcases hfollows.going with ⟨t, ht, _, hactive, _⟩
      rcases hflush : (flush t.work.journal).perform { s with database := d } with ⟨r, s₁⟩
      cases r with
      | error e =>
          rcases h.undone_of_flush hall ht hactive hflush with ⟨s', hexecute, hundone⟩
          rw [hexecute]
          exact hundone
      | ok u =>
          rcases h.effected hall ht hactive hflush with ⟨s', hexecute, heffected⟩
          rw [hexecute]
          exact heffected

end Session

namespace Service

/-- After any events, and whatever others have made of the backstore, statements that are executed
in a transaction that may write, goes on and has staged nothing take effect as a whole, or they
fail, nothing has changed and the transaction is aborted. -/
theorem execution_is_all_or_nothing {c : Catalog} (hc : c.Built) {options : DatabaseOptions}
    {b b₁ : Backstore} {d₀ : Database}
    (hopen : (Database.load c options).perform b = (.ok d₀, b₁)) (events : List Event)
    {before : Session}
    (hbefore : before.database = ((opened b₁ d₀).after events).session.database)
    (hbackstore : before.backstore.WellFormed) {id : Nat} {t : Transaction}
    (hwaiting : ((opened b₁ d₀).after events).waiting.get? id = none)
    (ht : before.database.transaction id = .ok t) (hmode : t.work.mode = .readWrite)
    (hactive : t.work.phase = .active) (hnothing : ∀ table, ¬ t.work.journal.Stages table)
    (statements : List Statement) :
    match (Session.execute id statements).perform before with
    | (.ok results, after) => before.Effected after statements results
    | (.error e, after) => before.Undone after id ∧ before.Fails id statements e := by
  have hfresh := Database.fresh_load hopen
  have hopened : (opened b₁ d₀).session.Manages (opened b₁ d₀).waiting d₀ :=
    ⟨hfresh.consistent, hfresh.orderly, Database.Leads.refl d₀⟩
  rcases managed_after hopened SortedMap.ordered_empty events with ⟨hmanaged, hordered⟩
  unfold Session.Manages at hmanaged
  have hdeclared :
      ((opened b₁ d₀).after events).session.database.committed.Declared c.tables :=
    ground_after (P := fun g => g.base.committed.Declared c.tables)
      ⟨hfresh.consistent, SortedMap.ordered_empty⟩ (Database.declared_load hc.wellFormed hopen)
      (fun hkept hd hmove => hmove.declared hkept hd) events
  rw [← hbefore] at hmanaged hdeclared
  have hfollows : before.database.Follows id
      { committed := before.database.committed, rowIds := before.database.rowIds } := by
    refine ⟨hmanaged.consistent.wellKept, rfl, t, Database.transaction_eq_ok_iff.mp ht, hmode,
      hactive, ?_⟩
    intro table
    rw [Journal.sees_of_not_staged]
    cases hstaged : t.work.journal.staged.get? table with
    | none => rfl
    | some s => exact absurd ⟨s, hstaged⟩ (hnothing table)
  have hready : before.Ready ((opened b₁ d₀).after events).waiting d₀ c.tables id :=
    { manages := hmanaged
      orderedWaiting := hordered
      notWaiting := hwaiting
      follows := hfollows
      declared := hdeclared
      wellFormed := hc.wellFormed.tables
      backstore := hbackstore }
  exact hready.execute_cases statements

set_option maxRecDepth 10000 in
theorem two_items_under_a_number_are_undone :
    ∃ (d : Database) (b : Backstore), (Database.load .shop {}).perform {} = (.ok d, b) ∧
      let v := (opened b d).after [.request (.begin .readWrite)]
      ∃ (e : Failure) (after : Session),
        (Session.execute 1 [.insert { table := .items, rows := [[.int64 7, .float64 ⟨0⟩]] },
          .insert { table := .items, rows := [[.int64 7, .float64 ⟨1⟩]] }]).perform v.session =
            (.error e, after) ∧
          v.session.Undone after 1 := by
  have hopen : (Database.load .shop {}).perform {} = (.ok _, _) := rfl
  refine ⟨_, _, hopen, ?_⟩
  intro v
  have hv : (opened _ _).after [.request (.begin .readWrite)] = v := rfl
  -- What is needed of the service is evaluated before its value is forgotten.
  have hstores : v.session.backstore.stores = ({} : SortedMap String RowMap).insert "item" {} := rfl
  have hwaiting : v.waiting.get? 1 = none := rfl
  have ht : v.session.database.transaction 1 =
      .ok { work := { id := 1, mode := .readWrite } } := rfl
  have hexecute : ∃ e after, (Session.execute 1
      [.insert { table := .items, rows := [[.int64 7, .float64 ⟨0⟩]] },
        .insert { table := .items, rows := [[.int64 7, .float64 ⟨1⟩]] }]).perform v.session =
          (.error e, after) := ⟨_, _, rfl⟩
  clear_value v
  have hwellFormed : v.session.backstore.WellFormed := by
    constructor
    · rw [hstores]
      exact SortedMap.ordered_empty.insert _ _
    · rw [hstores]
      exact SortedMap.forall_insert SortedMap.ordered_empty (Q := fun _ m => SortedMap.Ordered m)
        SortedMap.ordered_empty nofun
  rcases hexecute with ⟨e, after, hexecute⟩
  have h := execution_is_all_or_nothing Catalog.built_shop hopen [.request (.begin .readWrite)]
    (congrArg (·.session.database) hv.symm) hwellFormed (hv.symm ▸ hwaiting) ht rfl rfl
    (fun table => Journal.not_stages_empty table)
    [.insert { table := .items, rows := [[.int64 7, .float64 ⟨0⟩]] },
      .insert { table := .items, rows := [[.int64 7, .float64 ⟨1⟩]] }]
  rw [hexecute] at h
  exact ⟨e, after, hexecute, h.1⟩

end Service

end RelationalDb
