import Toolbox8.LevelDBIds
import Toolbox8.LevelDBTables

set_option autoImplicit false

namespace Toolbox8.LevelDB

open Base

section OneTable

variable (t : LevelDBTable)

-- Every record is what get finds under its key, also in what a crash leaves, and an insert returns after its record is put.
structure Reads (s : State t) : Prop where
  inv : Invariant t s
  back : ∀ kept, ∀ put ∈ s.db.take kept, put.isRecord = true → get (s.db.take kept) put.key = some put.value
  recorded : ∀ id ∈ s.opened.returned, ∃ put ∈ s.db, put.isRecord = true ∧ put.key = t.recordKey id

theorem put_reads (db : List Put) (put : Put) (fresh : ∀ old ∈ db, old.isRecord = true → old.key ≠ put.key)
    (back : ∀ kept, ∀ old ∈ db.take kept, old.isRecord = true → get (db.take kept) old.key = some old.value) (kept : Nat)
    (old : Put) (member : old ∈ (db ++ [put]).take kept) (record : old.isRecord = true) :
    get ((db ++ [put]).take kept) old.key = some old.value := by
  by_cases within : kept ≤ db.length
  · rw [List.take_append_of_le_length within] at member ⊢
    exact back kept old member record
  · rw [List.take_of_length_le (by rw [List.length_append, List.length_singleton]; omega)] at member ⊢
    rw [get_put]
    rcases List.mem_append.mp member with earlier | last
    · have whole := back db.length old (by rwa [List.take_length]) record
      rw [List.take_length] at whole
      rw [if_neg (Ne.symm (fresh old earlier record)), whole]
    · rw [List.mem_singleton.mp last, if_pos rfl]

theorem few_before (s next : State t) (step : InsertStep) (stepped : (machine t).step s (.insert step) = some next)
    (few : Few t next) : Few t s := by
  obtain ⟨_, _, rfl⟩ := Option.map_eq_some_iff.mp stepped
  simp only [Few] at few ⊢
  omega

theorem insert_recorded (s next : State t) (step : InsertStep) (inv : Invariant t s)
    (recorded : ∀ id ∈ s.opened.returned, ∃ put ∈ s.db, put.isRecord = true ∧ put.key = t.recordKey id)
    (stepped : (machine t).step s (.insert step) = some next) (id : t.keySize.Id) (returned : id ∈ next.opened.returned) :
    ∃ put ∈ next.db, put.isRecord = true ∧ put.key = t.recordKey id := by
  cases step with
  | next data =>
      obtain rfl := Option.some.inj stepped
      obtain ⟨put, member, found⟩ := recorded id returned
      exact ⟨put, List.mem_append_left _ member, found⟩
  | record i =>
      cases found : s.opened.inserting[i]? with
      | none => simp [machine, insert, found] at stepped
      | some inserting =>
          simp only [machine, insert, found, Option.map_some] at stepped
          obtain rfl := Option.some.inj stepped
          rcases List.mem_append.mp returned with earlier | now
          · obtain ⟨put, member, found⟩ := recorded id earlier
            exact ⟨put, List.mem_append_left _ member, found⟩
          · obtain rfl := List.mem_singleton.mp now
            have key := (inv.underWay inserting (List.mem_of_getElem? found)).1
            exact ⟨_, List.mem_append_right _ (List.mem_singleton_self _), rfl, key⟩

theorem reads_step (s next : State t) (event : Event) (holds : Few t s → Reads t s)
    (stepped : (machine t).step s event = some next) (few : Few t next) : Reads t next := by
  have inv := step_keeps t s next event (fun few => (holds few).inv) stepped few
  cases event with
  | insert step =>
      obtain ⟨before, back, recorded⟩ := holds (few_before t s next step stepped few)
      obtain ⟨put, grown, fresh⟩ := put_on_fresh_key t s next step before stepped
      refine ⟨inv, ?_, insert_recorded t s next step before recorded stepped⟩
      rw [grown]
      exact put_reads s.db put fresh back
  | crash kept =>
      obtain ⟨opened, opens, rfl⟩ := Option.map_eq_some_iff.mp stepped
      obtain ⟨_, back, _⟩ := holds few
      refine ⟨inv, ?_, ?_⟩
      · intro fewer put member record
        simp only [List.take_take] at member ⊢
        exact back _ put member record
      · intro id returned
        obtain ⟨_, _, rfl⟩ := Option.map_eq_some_iff.mp opens
        simp at returned

theorem initial_reads : Reads t (machine t).initial := by
  refine ⟨initial_invariant t, ?_, ?_⟩
  · intro kept put member
    rw [show ((machine t).initial.db.take kept) = [] from List.take_nil] at member
    simp at member
  · intro id returned
    simp [machine] at returned

def LevelDBTable.has (key : ByteString) : Bool :=
  t.prefixBytes.isPrefixOf key && key.length == t.prefixBytes.length + t.keySize.size

def LevelDBTable.part (db : List Put) : List Put := db.filter (fun put => t.has put.key)

theorem has_iff (key : ByteString) : t.has key = true ↔ InKeys t key := by
  rw [in_keys_iff, LevelDBTable.has, Bool.and_eq_true, List.isPrefixOf_iff_prefix, beq_iff_eq]
  constructor
  · rintro ⟨⟨bytes, rfl⟩, full⟩
    exact ⟨bytes, by simpa using full, rfl⟩
  · rintro ⟨bytes, full, rfl⟩
    exact ⟨List.prefix_append _ _, by simp [full]⟩

theorem get_part (db : List Put) (key : ByteString) (member : InKeys t key) : get (t.part db) key = get db key := by
  have has := (has_iff t key).mpr member
  rw [get, get, LevelDBTable.part, List.foldl_filter]
  congr 1
  funext found put
  by_cases same : put.key = key
  · simp [same, has]
  · simp [same]

theorem part_put (db : List Put) (put : Put) (member : InKeys t put.key) : t.part (db ++ [put]) = t.part db ++ [put] := by
  simp [LevelDBTable.part, (has_iff t put.key).mpr member]

theorem part_other (db : List Put) (put : Put) (other : ¬ InKeys t put.key) : t.part (db ++ [put]) = t.part db := by
  simp [LevelDBTable.part, (has_iff t put.key).not.mpr other]

theorem part_take (db : List Put) (kept : Nat) : ∃ few, t.part (db.take kept) = (t.part db).take few := by
  have front := (List.take_prefix kept db).filter (fun put => t.has put.key)
  exact ⟨_, List.prefix_iff_eq_take.mp front⟩

theorem open_part (db : List Put) : t.openOn (t.part db) = t.openOn db := by
  rw [LevelDBTable.openOn, LevelDBTable.openOn, get_part t db t.metaKey (.inl rfl)]

end OneTable

section Database

variable {ι : Type} (tables : ι → LevelDBTable)

-- A database that may crash as a whole, with at most one table object for each of its tables. allocated counts the ids
-- that a table has allocated in all of the run.
structure Database where
  db : List Put
  opened : (i : ι) → Option (Opened (tables i))
  allocated : ι → Nat

inductive DatabaseEvent (ι : Type) where
  | table (i : ι)
  | insert (i : ι) (step : InsertStep)
  | crash (kept : Nat)
deriving DecidableEq, Repr

-- One table by itself. Where it has no table object, the one that would be made now.
def Database.only (s : Database tables) (i : ι) : State (tables i) where
  db := (tables i).part s.db
  opened := (s.opened i).getD (((tables i).openOn s.db).getD ⟨0, [], []⟩)
  allocated := s.allocated i

theorem only_crash (s : Database tables) (i : ι) (kept : Nat) (inv : Invariant (tables i) (s.only tables i)) :
    ∃ few, (machine (tables i)).step (s.only tables i) (.crash few) =
      some (Database.only tables { s with db := s.db.take kept, opened := fun _ => none } i) := by
  obtain ⟨few, part⟩ := part_take (tables i) s.db kept
  obtain ⟨id, read, _, _⟩ := inv.covered few
  have again : (tables i).openOn ((tables i).part (s.db.take kept)) = some ⟨id, [], []⟩ := by
    rw [part, LevelDBTable.openOn]
    exact Option.map_eq_some_iff.mpr ⟨id, read, rfl⟩
  have opens := (open_part (tables i) (s.db.take kept)).symm.trans again
  rw [part] at again
  refine ⟨few, ?_⟩
  simp only [machine, Database.only, opens, Option.getD_none, Option.getD_some, part]
  rw [again, Option.map_some]

variable [DecidableEq ι]

def databaseStep (s : Database tables) : DatabaseEvent ι → Option (Database tables)
  | .table i =>
      match s.opened i with
      | some _ => none
      | none => ((tables i).openOn s.db).map (fun opened => { s with opened := Function.update s.opened i (some opened) })
  | .insert i step =>
      match s.opened i with
      | none => none
      | some opened =>
          (insert (tables i) opened step).map (fun (opened, put) =>
            { db := s.db ++ [put]
              opened := Function.update s.opened i (some opened)
              allocated := Function.update s.allocated i (s.allocated i + step.allocates) })
  | .crash kept => some { s with db := s.db.take kept, opened := fun _ => none }

def database : Machine (Database tables) (DatabaseEvent ι) where
  initial := ⟨[], fun _ => none, fun _ => 0⟩
  step := databaseStep tables

structure DatabaseInvariant (s : Database tables) : Prop where
  keyed : ∀ i opened, s.opened i = some opened → WellKeyed (tables i) opened
  owned : ∀ put ∈ s.db, ∃ i, InKeys (tables i) put.key
  reads : ∀ i, Few (tables i) (s.only tables i) → Reads (tables i) (s.only tables i)

theorem only_table (s : Database tables) (i j : ι) (opened : Opened (tables j)) (closed : s.opened j = none)
    (opens : (tables j).openOn s.db = some opened) :
    Database.only tables { s with opened := Function.update s.opened j (some opened) } i = s.only tables i := by
  by_cases same : i = j
  · subst same
    simp [Database.only, closed, opens]
  · simp [Database.only, Function.update_of_ne same]

theorem only_insert (s : Database tables) (i : ι) (opened after : Opened (tables i)) (step : InsertStep) (put : Put)
    (here : s.opened i = some opened) (keyed : WellKeyed (tables i) opened)
    (inserted : insert (tables i) opened step = some (after, put)) :
    (machine (tables i)).step (s.only tables i) (.insert step) = some (Database.only tables
      { db := s.db ++ [put], opened := Function.update s.opened i (some after),
        allocated := Function.update s.allocated i (s.allocated i + step.allocates) } i) := by
  have member := (insert_keys (tables i) opened after step put keyed inserted).1
  simp [machine, Database.only, here, inserted, part_put (tables i) s.db put member]

theorem only_other (apart : ∀ i j, i ≠ j → ¬ Overlapping (tables i) (tables j)) (s : Database tables) (i j : ι)
    (different : i ≠ j) (opened after : Opened (tables j)) (step : InsertStep) (put : Put) (keyed : WellKeyed (tables j) opened)
    (inserted : insert (tables j) opened step = some (after, put)) :
    Database.only tables
      { db := s.db ++ [put], opened := Function.update s.opened j (some after),
        allocated := Function.update s.allocated j (s.allocated j + step.allocates) } i = s.only tables i := by
  have member := (insert_keys (tables j) opened after step put keyed inserted).1
  have other : ¬ InKeys (tables i) put.key :=
    fun own => apart i j different (common_key_overlaps (tables i) (tables j) put.key own member)
  have part := part_other (tables i) s.db put other
  have opens : (tables i).openOn (s.db ++ [put]) = (tables i).openOn s.db := by
    rw [← open_part, part, open_part]
  simp [Database.only, part, opens, Function.update_of_ne different]

theorem step_invariant (apart : ∀ i j, i ≠ j → ¬ Overlapping (tables i) (tables j)) (s next : Database tables)
    (event : DatabaseEvent ι) (inv : DatabaseInvariant tables s) (stepped : (database tables).step s event = some next) :
    DatabaseInvariant tables next := by
  obtain ⟨keyed, owned, reads⟩ := inv
  cases event with
  | table j =>
      simp only [database, databaseStep] at stepped
      split at stepped
      · simp at stepped
      · rename_i closed
        obtain ⟨opened, opens, rfl⟩ := Option.map_eq_some_iff.mp stepped
        refine ⟨?_, owned, ?_⟩
        · intro i other here
          by_cases same : i = j
          · subst same
            simp only [Function.update_self, Option.some.injEq] at here
            subst here
            exact opened_well_keyed (tables i) s.db opened opens
          · simp only [Function.update_of_ne same] at here
            exact keyed i other here
        · intro i
          rw [only_table tables s i j opened closed opens]
          exact reads i
  | insert j step =>
      simp only [database, databaseStep] at stepped
      split at stepped
      · simp at stepped
      · rename_i opened here
        obtain ⟨⟨after, put⟩, inserted, rfl⟩ := Option.map_eq_some_iff.mp stepped
        obtain ⟨member, well⟩ := insert_keys (tables j) opened after step put (keyed j opened here) inserted
        refine ⟨?_, ?_, ?_⟩
        · intro i other found
          by_cases same : i = j
          · subst same
            simp only [Function.update_self, Option.some.injEq] at found
            subst found
            exact well
          · simp only [Function.update_of_ne same] at found
            exact keyed i other found
        · intro other inside
          rcases List.mem_append.mp inside with old | last
          · exact owned other old
          · rw [List.mem_singleton.mp last]
            exact ⟨j, member⟩
        · intro i few
          by_cases same : i = j
          · subst same
            have stepped := only_insert tables s i opened after step put here (keyed i opened here) inserted
            exact reads_step (tables i) _ _ (.insert step) (reads i) stepped few
          · have kept := only_other tables apart s i j same opened after step put (keyed j opened here) inserted
            simp only [kept] at few ⊢
            exact reads i few
  | crash kept =>
      obtain rfl := Option.some.inj stepped
      refine ⟨?_, ?_, ?_⟩
      · intro i opened here
        simp at here
      · intro put member
        exact owned put (List.mem_of_mem_take member)
      · intro i few
        have before : Few (tables i) (s.only tables i) := few
        obtain ⟨fewer, crashed⟩ := only_crash tables s i kept (reads i before).inv
        exact reads_step (tables i) _ _ (.crash fewer) (reads i) crashed few

theorem initial_invariant_database : DatabaseInvariant tables (database tables).initial := by
  refine ⟨?_, ?_, ?_⟩
  · intro i opened here
    simp [database] at here
  · intro put member
    simp [database] at member
  · intro i _
    exact initial_reads (tables i)

end Database

-- Tables with an intPrefix each have their keys apart.
theorem int_prefixes_apart (u v : BitVec 32) (one two : KeySize) (different : u ≠ v) :
    ¬ Overlapping (table one (intPrefix u)) (table two (intPrefix v)) := by
  apply equal_length_apart
  · exact fun same => different (@word_bytes_injective 4 u v same)
  · exact (bytes_length .intSize u).trans (bytes_length .intSize v).symm

def exampleTables (second : Bool) : LevelDBTable := longTable (intPrefix (if second then 1 else 0))

-- A crash that loses the record of one of the tables.
def twoTables : List (DatabaseEvent Bool) :=
  [.table false, .table true, .insert false (.next [1]), .insert true (.next [2]), .insert false (.record 0),
   .insert true (.record 0), .crash 3, .table true, .insert true (.next [3]), .insert true (.record 0)]

end Toolbox8.LevelDB
