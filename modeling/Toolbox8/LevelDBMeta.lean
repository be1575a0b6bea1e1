import Toolbox8.LevelDB

set_option autoImplicit false

namespace Toolbox8.LevelDB

open Base

-- A table that is used by one thread: an insert returns before the next call.
inductive Call where
  | insert (data : ByteString)
  | reopen
deriving DecidableEq, Repr

-- returned is what the most recent insert has returned, through this table object or an earlier one.
structure Sequential (t : LevelDBTable) where
  db : List Put
  opened : Opened t
  returned : Option t.keySize.Id

section Calls

variable (t : LevelDBTable)

def insertAll (db : List Put) (opened : Opened t) (data : ByteString) : Option (List Put × Opened t) :=
  (insert t opened (.next data)).bind (fun (middle, metaPut) =>
    (insert t middle (.record opened.inserting.length)).map (fun (after, recordPut) => (db ++ [metaPut, recordPut], after)))

def sequential : Machine (Sequential t) Call where
  initial := ⟨[], ⟨0, [], []⟩, none⟩
  step := fun s call =>
    match call with
    | .insert data => (insertAll t s.db s.opened data).map (fun (db, opened) => ⟨db, opened, opened.returned.getLast?⟩)
    | .reopen => (t.openOn s.db).map (fun opened => { s with opened := opened })

-- The meta value is the encoding of the id that the most recent insert has returned.
def MetaHolds (s : Sequential t) : Prop := ∀ id, s.returned = some id → get s.db t.metaKey = some (t.keySize.bytes id)

-- The insert that comes to id 0, whose record has the meta key, puts the encoding of 0 there.
def MetaKept (s : Sequential t) (call : Call) : Prop :=
  ∀ data, call = .insert data → s.opened.id + 1 = 0 → data = List.replicate t.keySize.size 0

theorem record_key_meta_iff (id : t.keySize.Id) : t.recordKey id = t.metaKey ↔ id = 0 := by
  rw [meta_key_is_zero]
  constructor
  · exact record_key_injective t id 0
  · intro zero
    rw [zero]

theorem zero_bytes : t.keySize.bytes 0 = List.replicate t.keySize.size 0 := by
  have same : t.recordKey 0 = t.metaKey := (record_key_meta_iff t 0).mpr rfl
  exact List.append_cancel_left same

theorem insert_all_puts (db : List Put) (opened : Opened t) (data : ByteString) :
    insertAll t db opened data =
      some (db ++ [⟨t.metaKey, t.keySize.bytes (opened.id + 1), false⟩, ⟨t.recordKey (opened.id + 1), data, true⟩],
        { opened with id := opened.id + 1, returned := opened.returned ++ [opened.id + 1] }) := by
  have rest := record_key_rest t (opened.id + 1)
  simp only [insertAll, insert]
  generalize opened.id + 1 = id at rest ⊢
  rw [LevelDBTable.recordKey] at rest
  simp [rest, LevelDBTable.recordKey, List.eraseIdx_append_of_length_le]

theorem insert_step (s : Sequential t) (data : ByteString) :
    (sequential t).step s (.insert data) =
      some ⟨s.db ++ [⟨t.metaKey, t.keySize.bytes (s.opened.id + 1), false⟩, ⟨t.recordKey (s.opened.id + 1), data, true⟩],
        { s.opened with id := s.opened.id + 1, returned := s.opened.returned ++ [s.opened.id + 1] },
        some (s.opened.id + 1)⟩ := by
  simp only [sequential, insert_all_puts, Option.map_some, List.getLast?_append, List.getLast?_singleton, Option.some_or]

theorem inserts_run (count : Nat) (data : ByteString) (s : Sequential t) :
    ∃ final, (sequential t).run s (List.replicate count (.insert data)) = some final ∧
      final.opened.id = s.opened.id + BitVec.ofNat _ count := by
  induction count generalizing s with
  | zero => exact ⟨s, rfl, (BitVec.add_zero _).symm⟩
  | succ count ih =>
      rw [List.replicate_succ, run_cons_of_step _ _ _ _ _ (insert_step t s data)]
      obtain ⟨final, ran, id⟩ := ih ⟨_, _, _⟩
      refine ⟨final, ran, ?_⟩
      rw [id, BitVec.add_assoc, Nat.add_comm, BitVec.ofNat_add]
      rfl

theorem insert_meta (db : List Put) (id : t.keySize.Id) (data : ByteString) :
    get (db ++ [⟨t.metaKey, t.keySize.bytes id, false⟩, ⟨t.recordKey id, data, true⟩]) t.metaKey =
      if id = 0 then some data else some (t.keySize.bytes id) := by
  have split : ∀ first second : Put, db ++ [first, second] = db ++ [first] ++ [second] := by simp
  rw [split, get_put, get_put, if_pos rfl]
  simp only [record_key_meta_iff]

theorem step_meta (s next : Sequential t) (call : Call) (holds : MetaHolds t s)
    (stepped : (sequential t).step s call = some next) : MetaHolds t next ↔ MetaKept t s call := by
  cases call with
  | insert data =>
      rw [insert_step] at stepped
      obtain rfl := Option.some.inj stepped
      simp only [MetaHolds, MetaKept, Option.some.injEq, Call.insert.injEq, forall_eq', insert_meta]
      generalize s.opened.id + 1 = id
      by_cases zero : id = 0
      · simp only [zero, if_true, zero_bytes, Option.some.injEq, forall_const]
      · simp only [zero, if_false, false_implies]
  | reopen =>
      obtain ⟨opened, _, rfl⟩ := Option.map_eq_some_iff.mp stepped
      exact iff_of_true holds (fun data other => by cases other)

theorem meta_kept_iff (calls : List Call) (final : Sequential t)
    (ran : (sequential t).run (sequential t).initial calls = some final) :
    (sequential t).Along (MetaHolds t) (sequential t).initial calls ↔
      (sequential t).Meets (MetaKept t) (sequential t).initial calls := by
  apply along_iff_meets (sequential t) (MetaKept t) (MetaHolds t) _ final calls _ _ ran
  · intro s call _ next holds stepped
    exact step_meta t s next call holds stepped
  · intro id none
    cases none

end Calls

def reopenedCalls : List Call := [.insert [1], .reopen, .insert [2]]

theorem meta_kept_iff_reopened :
    ∃ final, (sequential (longTable [9])).run (sequential (longTable [9])).initial reopenedCalls = some final ∧
      ((sequential (longTable [9])).Along (MetaHolds (longTable [9])) (sequential (longTable [9])).initial reopenedCalls ↔
        (sequential (longTable [9])).Meets (MetaKept (longTable [9])) (sequential (longTable [9])).initial reopenedCalls) := by
  have ran : ((sequential (longTable [9])).run (sequential (longTable [9])).initial reopenedCalls).map (fun s => s.db.length) =
      some 4 := by
    decide +kernel
  obtain ⟨final, run, _⟩ := Option.map_eq_some_iff.mp ran
  exact ⟨final, run, meta_kept_iff (longTable [9]) reopenedCalls final run⟩

-- The 256th insert into a table of byte ids returns 0 and puts its record under the meta key.
theorem data_in_meta_slot :
    ∃ final, (sequential (table .byteSize [])).run (sequential (table .byteSize [])).initial
        (List.replicate 256 (.insert [7, 7])) = some final ∧
      final.returned = some 0 ∧ get final.db (table .byteSize []).metaKey = some [7, 7] ∧ ¬ MetaHolds (table .byteSize []) final := by
  obtain ⟨s, ran, id⟩ := inserts_run (table .byteSize []) 255 [7, 7] (sequential (table .byteSize [])).initial
  have zero : s.opened.id + 1 = 0 := by
    rw [id]
    decide
  have step := insert_step (table .byteSize []) s [7, 7]
  have stored := insert_meta (table .byteSize []) s.db 0 [7, 7]
  rw [zero] at step
  rw [if_pos rfl] at stored
  have full := run_append (sequential (table .byteSize [])) (sequential (table .byteSize [])).initial
    (List.replicate 255 (.insert [7, 7])) [.insert [7, 7]]
  rw [← List.replicate_succ', ran, Option.bind_some, run_cons, step, Option.bind_some, run_nil] at full
  refine ⟨_, full, rfl, stored, ?_⟩
  intro holds
  have value := holds 0 rfl
  rw [stored] at value
  exact absurd value (by decide)

end Toolbox8.LevelDB
