import Mathlib.Logic.Function.Basic
import Toolbox8.LevelDB

set_option autoImplicit false

namespace Toolbox8.LevelDB

open Base

-- A step of one table. To reopen it is to make a new table object over the same database.
inductive TableStep where
  | insert (step : InsertStep)
  | reopen
deriving DecidableEq, Repr

def tableStep (t : LevelDBTable) (db : List Put) (opened : Opened t) : TableStep → Option (List Put × Opened t)
  | .insert step => (insert t opened step).map (fun (opened, put) => (db ++ [put], opened))
  | .reopen => (t.openOn db).map (fun opened => (db, opened))

-- A table that has the database for itself.
def alone (t : LevelDBTable) : Machine (List Put × Opened t) TableStep where
  initial := ([], ⟨0, [], []⟩)
  step := fun s step => tableStep t s.1 s.2 step

def InKeys (t : LevelDBTable) (key : ByteString) : Prop := key = t.metaKey ∨ ∃ id, key = t.recordKey id

-- The two tables have keys of one length, and one prefix goes on where the other one ends.
def Overlapping (a b : LevelDBTable) : Prop :=
  a.prefixBytes.length + a.keySize.size = b.prefixBytes.length + b.keySize.size ∧
    (a.prefixBytes <+: b.prefixBytes ∨ b.prefixBytes <+: a.prefixBytes)

-- What the steps of insert put under, which every table object keeps.
def WellKeyed (t : LevelDBTable) (opened : Opened t) : Prop :=
  ∀ inserting ∈ opened.inserting, inserting.keyBuffer = t.recordKey inserting.id

section Keys

variable (t : LevelDBTable)

theorem in_keys_iff (key : ByteString) :
    InKeys t key ↔ ∃ bytes : ByteString, bytes.length = t.keySize.size ∧ key = t.prefixBytes ++ bytes := by
  constructor
  · rintro (rfl | ⟨id, rfl⟩)
    · exact ⟨_, List.length_replicate, rfl⟩
    · exact ⟨_, bytes_length t.keySize id, rfl⟩
  · rintro ⟨bytes, full, rfl⟩
    refine .inr ⟨BitVec.ofNat (8 * t.keySize.size) (valueOf bytes), ?_⟩
    rw [LevelDBTable.recordKey, KeySize.bytes, bytes_of_word bytes full]
    rfl

theorem common_key_overlaps (a b : LevelDBTable) (key : ByteString) (first : InKeys a key) (second : InKeys b key) :
    Overlapping a b := by
  obtain ⟨front, frontFull, rfl⟩ := (in_keys_iff a key).mp first
  obtain ⟨back, backFull, same⟩ := (in_keys_iff b _).mp second
  constructor
  · rw [← frontFull, ← backFull, ← List.length_append, ← List.length_append, same]
  · exact List.prefix_or_prefix_of_prefix (List.prefix_append _ front) (same ▸ List.prefix_append _ back)

theorem extended_keys (a b : LevelDBTable) (size : a.prefixBytes.length + a.keySize.size = b.prefixBytes.length + b.keySize.size)
    (longer : a.prefixBytes <+: b.prefixBytes) (key : ByteString) (member : InKeys b key) : InKeys a key := by
  obtain ⟨bytes, full, rfl⟩ := (in_keys_iff b key).mp member
  obtain ⟨more, joined⟩ := longer
  rw [in_keys_iff]
  refine ⟨more ++ bytes, ?_, ?_⟩
  · rw [← joined, List.length_append] at size
    rw [List.length_append]
    omega
  · rw [← joined, List.append_assoc]

theorem equal_length_apart (a b : LevelDBTable) (distinct : a.prefixBytes ≠ b.prefixBytes)
    (length : a.prefixBytes.length = b.prefixBytes.length) : ¬ Overlapping a b := by
  rintro ⟨_, before | after⟩
  · exact distinct (before.eq_of_length length)
  · exact distinct (after.eq_of_length length.symm).symm

theorem opened_well_keyed (db : List Put) (opened : Opened t) (opens : t.openOn db = some opened) : WellKeyed t opened := by
  obtain ⟨id, _, rfl⟩ := Option.map_eq_some_iff.mp opens
  intro inserting member
  simp at member

theorem insert_keys (opened next : Opened t) (step : InsertStep) (put : Put) (keyed : WellKeyed t opened)
    (inserted : insert t opened step = some (next, put)) : InKeys t put.key ∧ WellKeyed t next := by
  cases step with
  | next data =>
      simp only [insert, Option.some.injEq, Prod.mk.injEq] at inserted
      obtain ⟨rfl, rfl⟩ := inserted
      refine ⟨.inl rfl, ?_⟩
      intro inserting member
      rcases List.mem_append.mp member with old | new
      · exact keyed inserting old
      · rw [List.mem_singleton.mp new]
        rfl
  | record i =>
      cases found : opened.inserting[i]? with
      | none => simp [insert, found] at inserted
      | some inserting =>
          simp only [insert, found, Option.map_some, Option.some.injEq, Prod.mk.injEq] at inserted
          obtain ⟨rfl, rfl⟩ := inserted
          refine ⟨.inr ⟨inserting.id, keyed inserting (List.mem_of_getElem? found)⟩, ?_⟩
          intro other rest
          exact keyed other (List.mem_of_mem_eraseIdx rest)

end Keys

section Tables

variable {ι : Type} [DecidableEq ι] (tables : ι → LevelDBTable)

-- Any number of tables over one database.
structure Shared where
  db : List Put
  opened : (i : ι) → Opened (tables i)

def sharedStep (s : Shared tables) (i : ι) (step : TableStep) : Option (Shared tables) :=
  (tableStep (tables i) s.db (s.opened i) step).map (fun (db, opened) => ⟨db, Function.update s.opened i opened⟩)

def shared : Machine (Shared tables) (ι × TableStep) where
  initial := ⟨[], fun _ => ⟨0, [], []⟩⟩
  step := fun s (i, step) => sharedStep tables s i step

def stepsOf (i : ι) (events : List (ι × TableStep)) : List TableStep :=
  events.filterMap (fun (j, step) => if j = i then some step else none)

-- No insert into a table puts under a key of another one, and each table is what its own steps make of it.
def Independent : Prop :=
  ∀ db opened, (∀ i, (tables i).openOn db = some (opened i)) →
    ∀ events final, (shared tables).run ⟨db, opened⟩ events = some final →
      (∀ i j, i ≠ j → ∀ step next put, insert (tables i) (final.opened i) step = some (next, put) →
        ¬ InKeys (tables j) put.key) ∧
      ∀ i, ∃ own, (alone (tables i)).run (db, opened i) (stepsOf i events) = some own ∧ own.2 = final.opened i ∧
        ∀ key, InKeys (tables i) key → get own.1 key = get final.db key

def Keyed (s : Shared tables) : Prop := ∀ i, WellKeyed (tables i) (s.opened i)

-- A table of its own that has gone the same way as table i of the shared database.
structure Follows (i : ι) (s : Shared tables) (own : List Put × Opened (tables i)) : Prop where
  same : own.2 = s.opened i
  agree : ∀ key, InKeys (tables i) key → get own.1 key = get s.db key

theorem update_keyed (s : Shared tables) (db : List Put) (i : ι) (opened : Opened (tables i)) (keyed : Keyed tables s)
    (well : WellKeyed (tables i) opened) : Keyed tables ⟨db, Function.update s.opened i opened⟩ := by
  intro j
  by_cases equal : j = i
  · subst equal
    simp only [Function.update_self]
    exact well
  · simp only [Function.update_of_ne equal]
    exact keyed j

theorem table_step_insert (t : LevelDBTable) (db after : List Put) (opened next : Opened t) (step : InsertStep) :
    tableStep t db opened (.insert step) = some (after, next) ↔
      ∃ put, insert t opened step = some (next, put) ∧ after = db ++ [put] := by
  rw [tableStep, Option.map_eq_some_iff]
  constructor
  · rintro ⟨⟨_, put⟩, inserted, made⟩
    obtain ⟨rfl, rfl⟩ := Prod.mk.inj made
    exact ⟨put, inserted, rfl⟩
  · rintro ⟨put, inserted, rfl⟩
    exact ⟨(next, put), inserted, rfl⟩

theorem table_step_reopen (t : LevelDBTable) (db after : List Put) (opened next : Opened t) :
    tableStep t db opened .reopen = some (after, next) ↔ t.openOn db = some next ∧ after = db := by
  rw [tableStep, Option.map_eq_some_iff]
  constructor
  · rintro ⟨_, opens, made⟩
    obtain ⟨rfl, rfl⟩ := Prod.mk.inj made
    exact ⟨opens, rfl⟩
  · rintro ⟨opens, rfl⟩
    exact ⟨next, opens, rfl⟩

theorem table_step_keyed (t : LevelDBTable) (db after : List Put) (opened next : Opened t) (step : TableStep)
    (keyed : WellKeyed t opened) (stepped : tableStep t db opened step = some (after, next)) :
    WellKeyed t next ∧ (after = db ∨ ∃ put, after = db ++ [put] ∧ InKeys t put.key) := by
  cases step with
  | insert step =>
      obtain ⟨put, inserted, rfl⟩ := (table_step_insert t db after opened next step).mp stepped
      obtain ⟨inKeys, well⟩ := insert_keys t opened _ step put keyed inserted
      exact ⟨well, .inr ⟨put, rfl, inKeys⟩⟩
  | reopen =>
      obtain ⟨opens, rfl⟩ := (table_step_reopen t db after opened next).mp stepped
      exact ⟨opened_well_keyed t after _ opens, .inl rfl⟩

theorem shared_step_keyed (s next : Shared tables) (event : ι × TableStep) (keyed : Keyed tables s)
    (stepped : (shared tables).step s event = some next) : Keyed tables next := by
  obtain ⟨⟨db, opened⟩, moved, rfl⟩ := Option.map_eq_some_iff.mp stepped
  have well := (table_step_keyed (tables event.1) s.db db (s.opened event.1) opened event.2 (keyed event.1) moved).1
  exact update_keyed tables s db event.1 opened keyed well

theorem table_step_agrees (t : LevelDBTable) (db own after : List Put) (opened next : Opened t) (step : TableStep)
    (agree : ∀ key, InKeys t key → get own key = get db key) (stepped : tableStep t db opened step = some (after, next)) :
    ∃ mine, tableStep t own opened step = some (mine, next) ∧ ∀ key, InKeys t key → get mine key = get after key := by
  cases step with
  | insert step =>
      obtain ⟨put, inserted, rfl⟩ := (table_step_insert t db after opened next step).mp stepped
      refine ⟨own ++ [put], (table_step_insert t own _ opened next step).mpr ⟨put, inserted, rfl⟩, ?_⟩
      intro key member
      rw [get_put, get_put, agree key member]
  | reopen =>
      obtain ⟨opens, rfl⟩ := (table_step_reopen t db after opened next).mp stepped
      have read := agree t.metaKey (.inl rfl)
      rw [LevelDBTable.openOn, ← read] at opens
      exact ⟨own, (table_step_reopen t own own opened next).mpr ⟨opens, rfl⟩, agree⟩

theorem step_follows (apart : ∀ i j, i ≠ j → ¬ Overlapping (tables i) (tables j)) (i : ι) (s next : Shared tables)
    (own : List Put × Opened (tables i)) (event : ι × TableStep) (rest : List (ι × TableStep)) (keyed : Keyed tables s)
    (follows : Follows tables i s own) (stepped : (shared tables).step s event = some next) :
    ∃ after, (alone (tables i)).run own (stepsOf i (event :: rest)) = (alone (tables i)).run after (stepsOf i rest) ∧
      Follows tables i next after := by
  obtain ⟨j, step⟩ := event
  obtain ⟨⟨db, opened⟩, moved, rfl⟩ := Option.map_eq_some_iff.mp stepped
  by_cases equal : j = i
  · subst equal
    obtain ⟨mine, taken, agree⟩ := table_step_agrees (tables j) s.db own.1 db (s.opened j) opened step follows.agree moved
    refine ⟨(mine, opened), ?_, ?_⟩
    · have steps : stepsOf j ((j, step) :: rest) = step :: stepsOf j rest := by simp [stepsOf]
      have ownStep : (alone (tables j)).step own step = some (mine, opened) := by
        show tableStep (tables j) own.1 own.2 step = some (mine, opened)
        rw [follows.same]
        exact taken
      rw [steps, run_cons_of_step (alone (tables j)) own (mine, opened) step (stepsOf j rest) ownStep]
    · exact ⟨by simp only [Function.update_self], agree⟩
  · have steps : stepsOf i ((j, step) :: rest) = stepsOf i rest := by simp [stepsOf, equal]
    refine ⟨own, by rw [steps], ?_, ?_⟩
    · simp only [Function.update_of_ne (Ne.symm equal)]
      exact follows.same
    · intro key member
      rcases (table_step_keyed (tables j) s.db db (s.opened j) opened step (keyed j) moved).2 with rfl | ⟨put, rfl, inKeys⟩
      · exact follows.agree key member
      · have other : put.key ≠ key := by
          intro same
          exact apart i j (Ne.symm equal) (common_key_overlaps (tables i) (tables j) key member (same ▸ inKeys))
        rw [get_put, if_neg other]
        exact follows.agree key member

theorem run_follows (apart : ∀ i j, i ≠ j → ¬ Overlapping (tables i) (tables j)) (i : ι) (s final : Shared tables)
    (own : List Put × Opened (tables i)) (events : List (ι × TableStep)) (keyed : Keyed tables s)
    (follows : Follows tables i s own) (ran : (shared tables).run s events = some final) :
    ∃ after, (alone (tables i)).run own (stepsOf i events) = some after ∧ Follows tables i final after := by
  induction events generalizing s own with
  | nil =>
      obtain rfl := Option.some.inj ran
      exact ⟨own, rfl, follows⟩
  | cons event rest ih =>
      rw [run_cons] at ran
      cases stepped : (shared tables).step s event with
      | none => simp [stepped] at ran
      | some next =>
          rw [stepped, Option.bind_some] at ran
          obtain ⟨after, same, still⟩ := step_follows tables apart i s next own event rest keyed follows stepped
          rw [same]
          exact ih next after (shared_step_keyed tables s next event keyed stepped) still ran

theorem apart_independent (apart : ∀ i j, i ≠ j → ¬ Overlapping (tables i) (tables j)) : Independent tables := by
  intro db opened opens events final ran
  have start : Keyed tables ⟨db, opened⟩ := fun i => opened_well_keyed (tables i) db (opened i) (opens i)
  have keyed := run_keeps (shared tables) (Keyed tables)
    (fun s event next keyed stepped => shared_step_keyed tables s next event keyed stepped) _ final events start ran
  constructor
  · intro i j different step next put inserted member
    have inKeys := (insert_keys (tables i) (final.opened i) next step put (keyed i) inserted).1
    exact apart i j different (common_key_overlaps (tables i) (tables j) put.key inKeys member)
  · intro i
    have follows : Follows tables i ⟨db, opened⟩ (db, opened i) := ⟨rfl, fun _ _ => rfl⟩
    obtain ⟨own, alone, after⟩ := run_follows tables apart i ⟨db, opened⟩ final (db, opened i) events start follows ran
    exact ⟨own, alone, after.same, after.agree⟩

-- The first insert into the table with the longer prefix puts under a key of the other one.
theorem independent_apart (independent : Independent tables) (i j : ι) (different : i ≠ j)
    (size : (tables i).prefixBytes.length + (tables i).keySize.size = (tables j).prefixBytes.length + (tables j).keySize.size) :
    ¬ (tables i).prefixBytes <+: (tables j).prefixBytes := by
  intro longer
  have none := (independent [] (fun _ => ⟨0, [], []⟩) (fun _ => rfl) [] _ rfl).1 j i (Ne.symm different) (.next []) _ _ rfl
  exact none (extended_keys (tables i) (tables j) size longer _ (.inl rfl))

theorem independent_iff : Independent tables ↔ ∀ i j, i ≠ j → ¬ Overlapping (tables i) (tables j) := by
  constructor
  · intro independent i j different overlapping
    obtain ⟨size, before | after⟩ := overlapping
    · exact independent_apart tables independent i j different size before
    · exact independent_apart tables independent j i (Ne.symm different) size.symm after
  · exact apart_independent tables

end Tables

section Collision

variable (t : LevelDBTable)

theorem nexts_reach (db : List Put) (opened : Opened t) (n : Nat) :
    ∃ after next, (alone t).run (db, opened) (List.replicate n (.insert (.next []))) = some (after, next) ∧
      next.id = opened.id + BitVec.ofNat (8 * t.keySize.size) n ∧
      (0 < n → ∃ front inserting, next.inserting = front ++ [inserting] ∧ inserting.keyBuffer = t.recordKey next.id) := by
  induction n generalizing db opened with
  | zero =>
      refine ⟨db, opened, rfl, ?_, fun positive => absurd positive (by decide)⟩
      simp
  | succ n ih =>
      obtain ⟨⟨step, put⟩, inserted⟩ : ∃ made, insert t opened (.next []) = some made := ⟨_, rfl⟩
      have stepped : (alone t).step (db, opened) (.insert (.next [])) = some (db ++ [put], step) := by
        show tableStep t db opened (.insert (.next [])) = some (db ++ [put], step)
        rw [tableStep, inserted, Option.map_some]
      have made : step.id = opened.id + 1 ∧ step.inserting = opened.inserting ++ [⟨t.recordKey (opened.id + 1), opened.id + 1, []⟩] := by
        simp only [insert, Option.some.injEq, Prod.mk.injEq] at inserted
        rw [← inserted.1]
        exact ⟨rfl, rfl⟩
      obtain ⟨after, next, ran, id, last⟩ := ih (db ++ [put]) step
      refine ⟨after, next, ?_, ?_, ?_⟩
      · rw [List.replicate_succ, run_cons_of_step (alone t) _ _ _ _ stepped, ran]
      · rw [id, made.1, BitVec.add_assoc, Nat.add_comm, BitVec.ofNat_add]
        rfl
      · intro _
        cases n with
        | zero =>
            obtain ⟨rfl, rfl⟩ := Prod.mk.inj (Option.some.inj ran)
            exact ⟨opened.inserting, _, made.2, by rw [made.1]⟩
        | succ n => exact last (Nat.succ_pos n)

-- Enough inserts into the table with the shorter prefix reach the meta key of the other one.
theorem overlapping_tables_collide (other : LevelDBTable)
    (size : t.prefixBytes.length + t.keySize.size = other.prefixBytes.length + other.keySize.size)
    (longer : t.prefixBytes <+: other.prefixBytes) :
    ∃ steps final, (alone t).run (alone t).initial steps = some final ∧
      ∃ step next put, insert t final.2 step = some (next, put) ∧ put.key = other.metaKey := by
  rcases extended_keys t other size longer other.metaKey (.inl rfl) with same | ⟨id, same⟩
  · exact ⟨[], _, rfl, .next [], _, _, rfl, same.symm⟩
  · by_cases positive : 0 < id.toNat
    · obtain ⟨after, next, ran, reached, last⟩ := nexts_reach t [] ⟨0, [], []⟩ id.toNat
      obtain ⟨front, inserting, split, key⟩ := last positive
      have found : next.inserting[front.length]? = some inserting := by simp [split]
      have equal : next.id = id := by
        rw [reached, BitVec.ofNat_toNat, BitVec.setWidth_eq]
        exact BitVec.zero_add id
      have taken := congrArg (Option.map fun inserting : Inserting t =>
        ({ next with inserting := next.inserting.eraseIdx front.length, returned := next.returned ++ [inserting.id] },
          (⟨inserting.keyBuffer, inserting.data, true⟩ : Put))) found
      exact ⟨_, (after, next), ran, .record front.length, _, _, taken, by rw [key, equal, same]⟩
    · have zero : id = 0 := BitVec.eq_of_toNat_eq (by simp; omega)
      rw [zero, ← meta_key_is_zero] at same
      exact ⟨[], _, rfl, .next [], _, _, rfl, same.symm⟩

end Collision

-- A long table without a prefix and an int table whose prefix is four zero bytes share their meta key.
theorem empty_prefix_interferes :
    (longTable []).prefixBytes ≠ (table .intSize (intPrefix 0)).prefixBytes ∧
      (longTable []).metaKey = (table .intSize (intPrefix 0)).metaKey ∧
      ¬ Independent (fun second : Bool => if second then table .intSize (intPrefix 0) else longTable []) := by
  refine ⟨by decide, by decide, ?_⟩
  intro independent
  apply independent_apart _ independent false true (by decide) (by decide)
  exact ⟨intPrefix 0, by decide⟩

end Toolbox8.LevelDB
