import Mathlib.Data.List.Nodup
import Mathlib.Data.List.Perm.Basic
import Toolbox8.LevelDB

set_option autoImplicit false

namespace Toolbox8.LevelDB

open Base

section Runs

variable (t : LevelDBTable)

def reopenedId (db : List Put) : Option t.keySize.Id := t.keySize.keyProvider (get db t.metaKey)

def recordKeys (db : List Put) : List ByteString := (db.filter (fun put => put.isRecord)).map (fun put => put.key)

def Bounded (db : List Put) (id : t.keySize.Id) : Prop :=
  ∀ put ∈ db, put.isRecord = true → ∃ r, put.key = t.recordKey r ∧ 0 < r.toNat ∧ r.toNat ≤ id.toNat

-- Every prefix of the puts is a database that a crash can leave.
structure Invariant (s : State t) : Prop where
  current : reopenedId t s.db = some s.opened.id
  covered : ∀ kept, ∃ id, reopenedId t (s.db.take kept) = some id ∧ id.toNat ≤ s.allocated ∧ Bounded t (s.db.take kept) id
  underWay : ∀ inserting ∈ s.opened.inserting, inserting.keyBuffer = t.recordKey inserting.id ∧
    0 < inserting.id.toNat ∧ inserting.id.toNat ≤ s.opened.id.toNat
  fresh : (recordKeys s.db ++ s.opened.inserting.map (fun inserting => inserting.keyBuffer)).Nodup
  distinct : (s.opened.returned ++ s.opened.inserting.map (fun inserting => inserting.id)).Nodup
  known : ∀ id ∈ s.opened.returned, id.toNat ≤ s.opened.id.toNat

theorem initial_invariant : Invariant t (machine t).initial := by
  constructor
  · rfl
  · intro kept
    refine ⟨0, ?_, ?_, ?_⟩
    · rw [show ((machine t).initial.db.take kept) = [] from List.take_nil]
      rfl
    · simp
    · intro put member
      rw [show ((machine t).initial.db.take kept) = [] from List.take_nil] at member
      simp at member
  · intro inserting member
    simp [machine] at member
  · exact List.nodup_nil
  · exact List.nodup_nil
  · intro id member
    simp [machine] at member

theorem current_bounded (s : State t) (inv : Invariant t s) : s.opened.id.toNat ≤ s.allocated ∧ Bounded t s.db s.opened.id := by
  obtain ⟨id, read, low, bounded⟩ := inv.covered s.db.length
  rw [List.take_length, inv.current] at read
  obtain rfl := Option.some.inj read
  rw [List.take_length] at bounded
  exact ⟨low, bounded⟩

theorem covered_put (db : List Put) (put : Put) (allocated more : Nat) (id : t.keySize.Id) (grows : allocated ≤ more)
    (covered : ∀ kept, ∃ id, reopenedId t (db.take kept) = some id ∧ id.toNat ≤ allocated ∧ Bounded t (db.take kept) id)
    (read : reopenedId t (db ++ [put]) = some id) (low : id.toNat ≤ more) (bounded : Bounded t (db ++ [put]) id) (kept : Nat) :
    ∃ id, reopenedId t ((db ++ [put]).take kept) = some id ∧ id.toNat ≤ more ∧ Bounded t ((db ++ [put]).take kept) id := by
  by_cases within : kept ≤ db.length
  · obtain ⟨old, oldRead, oldLow, oldBounded⟩ := covered kept
    rw [List.take_append_of_le_length within]
    exact ⟨old, oldRead, by omega, oldBounded⟩
  · rw [List.take_of_length_le (by rw [List.length_append, List.length_singleton]; omega)]
    exact ⟨id, read, low, bounded⟩

theorem bounded_mono (db : List Put) (low high : t.keySize.Id) (le : low.toNat ≤ high.toNat) (bounded : Bounded t db low) :
    Bounded t db high := by
  intro put member record
  obtain ⟨r, key, positive, below⟩ := bounded put member record
  exact ⟨r, key, positive, by omega⟩

theorem next_id (id : t.keySize.Id) (low : id.toNat + 1 < 2 ^ (8 * t.keySize.size)) : (id + 1).toNat = id.toNat + 1 := by
  have one : (1 : t.keySize.Id).toNat = 1 :=
    (BitVec.toNat_ofNat 1 (8 * t.keySize.size)).trans (Nat.mod_eq_of_lt (by omega))
  rw [BitVec.toNat_add, one, Nat.mod_eq_of_lt low]

theorem record_keys_put (db : List Put) (put : Put) :
    recordKeys (db ++ [put]) = recordKeys db ++ if put.isRecord then [put.key] else [] := by
  cases record : put.isRecord with
  | true => simp [recordKeys, record]
  | false => simp [recordKeys, record]

theorem next_key_fresh (s : State t) (inv : Invariant t s) (up : (s.opened.id + 1).toNat = s.opened.id.toNat + 1) :
    t.recordKey (s.opened.id + 1) ∉ recordKeys s.db ++ s.opened.inserting.map (fun inserting => inserting.keyBuffer) := by
  obtain ⟨_, bounded⟩ := current_bounded t s inv
  have apart : ∀ id : t.keySize.Id, id.toNat ≤ s.opened.id.toNat → t.recordKey id ≠ t.recordKey (s.opened.id + 1) := by
    intro id below key
    rw [record_key_injective t id (s.opened.id + 1) key] at below
    omega
  intro member
  rcases List.mem_append.mp member with recorded | underWay
  · obtain ⟨put, kept, key⟩ := List.mem_map.mp recorded
    obtain ⟨r, same, _, below⟩ := bounded put (List.mem_filter.mp kept).1 (List.mem_filter.mp kept).2
    exact apart r below (same.symm.trans key)
  · obtain ⟨inserting, found, key⟩ := List.mem_map.mp underWay
    obtain ⟨same, _, below⟩ := inv.underWay inserting found
    exact apart inserting.id below (same.symm.trans key)

theorem next_id_fresh (s : State t) (inv : Invariant t s) (up : (s.opened.id + 1).toNat = s.opened.id.toNat + 1) :
    s.opened.id + 1 ∉ s.opened.returned ++ s.opened.inserting.map (fun inserting => inserting.id) := by
  intro member
  rcases List.mem_append.mp member with returned | underWay
  · have below := inv.known _ returned
    omega
  · obtain ⟨inserting, found, same⟩ := List.mem_map.mp underWay
    have below := (inv.underWay inserting found).2.2
    rw [same] at below
    omega

theorem next_keeps (s next : State t) (data : ByteString) (inv : Invariant t s)
    (few : s.allocated + 1 < 2 ^ (8 * t.keySize.size) - 1)
    (stepped : (machine t).step s (.insert (.next data)) = some next) : Invariant t next := by
  obtain rfl := Option.some.inj stepped
  obtain ⟨low, bounded⟩ := current_bounded t s inv
  have up := next_id t s.opened.id (by omega)
  have read : reopenedId t (s.db ++ [⟨t.metaKey, (t.recordKey (s.opened.id + 1)).drop t.prefixBytes.length, false⟩]) =
      some (s.opened.id + 1) := by
    rw [reopenedId, get_put, if_pos rfl, record_key_rest]
    exact read_bytes t.keySize (s.opened.id + 1)
  constructor
  · exact read
  · apply covered_put t s.db _ s.allocated (s.allocated + 1) (s.opened.id + 1) (by omega) inv.covered read (by omega)
    intro put member record
    rcases List.mem_append.mp member with old | last
    · exact bounded_mono t s.db s.opened.id _ (by omega) bounded put old record
    · rw [List.mem_singleton.mp last] at record
      simp at record
  · intro inserting member
    rcases List.mem_append.mp member with old | last
    · obtain ⟨key, positive, below⟩ := inv.underWay inserting old
      exact ⟨key, positive, by simp only [up]; omega⟩
    · rw [List.mem_singleton.mp last]
      exact ⟨rfl, by simp only [up]; omega, Nat.le_refl _⟩
  · simp only [record_keys_put, Bool.false_eq_true, if_false, List.append_nil, List.map_append, List.map_singleton,
      ← List.append_assoc]
    rw [← List.concat_eq_append]
    exact List.Nodup.concat (next_key_fresh t s inv up) inv.fresh
  · simp only [List.map_append, List.map_singleton, ← List.append_assoc]
    rw [← List.concat_eq_append]
    exact List.Nodup.concat (next_id_fresh t s inv up) inv.distinct
  · intro id member
    have below := inv.known id member
    simp only [up]
    omega

theorem moved_perm {α β : Type} (f : α → β) (xs : List β) (ys : List α) (i : Nat) (y : α) (found : ys[i]? = some y) :
    (xs ++ [f y] ++ (ys.eraseIdx i).map f).Perm (xs ++ ys.map f) := by
  obtain ⟨within, rfl⟩ := List.getElem?_eq_some_iff.mp found
  rw [List.append_assoc]
  apply List.Perm.append_left
  exact (List.getElem_cons_eraseIdx_perm within).map f

theorem record_keeps (s next : State t) (i : Nat) (inv : Invariant t s)
    (stepped : (machine t).step s (.insert (.record i)) = some next) : Invariant t next := by
  cases found : s.opened.inserting[i]? with
  | none => simp [machine, insert, found] at stepped
  | some inserting =>
      have member := List.mem_of_getElem? found
      obtain ⟨key, positive, below⟩ := inv.underWay inserting member
      obtain ⟨low, bounded⟩ := current_bounded t s inv
      simp only [machine, insert, found, Option.map_some] at stepped
      obtain rfl := Option.some.inj stepped
      have read : reopenedId t (s.db ++ [⟨inserting.keyBuffer, inserting.data, true⟩]) = some s.opened.id := by
        rw [reopenedId, get_put, if_neg (by rw [key]; exact record_key_not_meta t inserting.id positive)]
        exact inv.current
      constructor
      · exact read
      · apply covered_put t s.db _ s.allocated s.allocated s.opened.id (Nat.le_refl _) inv.covered read low
        intro put last record
        rcases List.mem_append.mp last with old | new
        · exact bounded put old record
        · rw [List.mem_singleton.mp new]
          exact ⟨inserting.id, key, positive, below⟩
      · intro other rest
        exact inv.underWay other (List.mem_of_mem_eraseIdx rest)
      · simp only [record_keys_put, if_true]
        exact (moved_perm (fun inserting => inserting.keyBuffer) _ _ i inserting found).nodup_iff.mpr inv.fresh
      · exact (moved_perm (fun inserting => inserting.id) _ _ i inserting found).nodup_iff.mpr inv.distinct
      · intro id returned
        rcases List.mem_append.mp returned with old | new
        · exact inv.known id old
        · rw [List.mem_singleton.mp new]
          exact below

theorem crash_keeps (s next : State t) (kept : Nat) (inv : Invariant t s)
    (stepped : (machine t).step s (.crash kept) = some next) : Invariant t next := by
  obtain ⟨id, read, low, bounded⟩ := inv.covered kept
  rw [reopenedId] at read
  simp only [machine, LevelDBTable.openOn, read, Option.map_some] at stepped
  obtain rfl := Option.some.inj stepped
  constructor
  · exact read
  · intro fewer
    simp only [List.take_take]
    exact inv.covered (min fewer kept)
  · intro inserting member
    simp at member
  · simp only [List.map_nil, List.append_nil]
    have sub : (recordKeys (s.db.take kept)).Sublist (recordKeys s.db) :=
      ((List.take_sublist kept s.db).filter _).map _
    exact (inv.fresh.sublist (List.sublist_append_left _ _)).sublist sub
  · exact List.nodup_nil
  · intro id member
    simp at member

-- Fewer ids in all than there are of them, so that no id comes round again.
def Few (s : State t) : Prop := s.allocated < 2 ^ (8 * t.keySize.size) - 1

theorem step_keeps (s next : State t) (event : Event) (holds : Few t s → Invariant t s)
    (stepped : (machine t).step s event = some next) (few : Few t next) : Invariant t next := by
  cases event with
  | insert step =>
      cases step with
      | next data =>
          obtain rfl := Option.some.inj stepped
          exact next_keeps t s _ data (holds (Nat.lt_of_succ_lt few)) few rfl
      | record i =>
          have same : next.allocated = s.allocated := by
            obtain ⟨_, _, made⟩ := Option.map_eq_some_iff.mp stepped
            rw [← made]
            rfl
          exact record_keeps t s next i (holds (by rw [Few, ← same]; exact few)) stepped
  | crash kept =>
      have same : next.allocated = s.allocated := by
        obtain ⟨_, _, made⟩ := Option.map_eq_some_iff.mp stepped
        rw [← made]
      exact crash_keeps t s next kept (holds (by rw [Few, ← same]; exact few)) stepped

theorem reachable_invariant (s : State t) (reached : (machine t).Reachable s) (few : Few t s) : Invariant t s :=
  reachable_keeps (machine t) (fun s => Few t s → Invariant t s) (fun _ => initial_invariant t)
    (fun s event next holds stepped few => step_keeps t s next event holds stepped few) s reached few

theorem put_on_fresh_key (s next : State t) (step : InsertStep) (inv : Invariant t s)
    (stepped : (machine t).step s (.insert step) = some next) :
    ∃ put, next.db = s.db ++ [put] ∧ ∀ old ∈ s.db, old.isRecord = true → old.key ≠ put.key := by
  cases step with
  | next data =>
      obtain rfl := Option.some.inj stepped
      refine ⟨_, rfl, ?_⟩
      intro old member record
      obtain ⟨r, key, positive, _⟩ := (current_bounded t s inv).2 old member record
      rw [key]
      exact record_key_not_meta t r positive
  | record i =>
      cases found : s.opened.inserting[i]? with
      | none => simp [machine, insert, found] at stepped
      | some inserting =>
          simp only [machine, insert, found, Option.map_some] at stepped
          obtain rfl := Option.some.inj stepped
          refine ⟨_, rfl, ?_⟩
          intro old member record
          have recorded : old.key ∈ recordKeys s.db := List.mem_map_of_mem (List.mem_filter.mpr ⟨member, record⟩)
          have underWay := List.mem_map_of_mem (f := fun inserting : Inserting t => inserting.keyBuffer)
            (List.mem_of_getElem? found)
          exact (List.nodup_append.mp inv.fresh).2.2 old.key recorded inserting.keyBuffer underWay

theorem ids_survive (s : State t) (reached : (machine t).Reachable s) (few : s.allocated < 2 ^ (8 * t.keySize.size) - 1) :
    (∀ kept, ∃ id, t.keySize.keyProvider (get (s.db.take kept) t.metaKey) = some id ∧
      ∀ put ∈ s.db.take kept, put.isRecord = true → ∃ r, put.key = t.recordKey r ∧ r.toNat ≤ id.toNat) ∧
    (∀ step next, (machine t).step s (.insert step) = some next →
      ∃ put, next.db = s.db ++ [put] ∧ ∀ old ∈ s.db, old.isRecord = true → old.key ≠ put.key) ∧
    s.opened.returned.Nodup := by
  have inv := reachable_invariant t s reached few
  refine ⟨?_, ?_, ?_⟩
  · intro kept
    obtain ⟨id, read, _, bounded⟩ := inv.covered kept
    refine ⟨id, read, ?_⟩
    intro put member record
    obtain ⟨r, key, _, below⟩ := bounded put member record
    exact ⟨r, key, below⟩
  · intro step next stepped
    exact put_on_fresh_key t s next step inv stepped
  · exact (List.nodup_append.mp inv.distinct).1

end Runs

-- Two inserts that overlap, a crash that loses the later record, and another insert.
def crashedRun : List Event :=
  [.insert (.next [1]), .insert (.next [2]), .insert (.record 1), .insert (.record 0), .crash 3, .insert (.next [3]),
    .insert (.record 0)]

theorem ids_survive_a_crash :
    ∃ s, (machine (longTable [9])).run (machine (longTable [9])).initial crashedRun = some s ∧
      (∀ kept, ∃ id, KeySize.longSize.keyProvider (get (s.db.take kept) (longTable [9]).metaKey) = some id ∧
        ∀ put ∈ s.db.take kept, put.isRecord = true → ∃ r, put.key = (longTable [9]).recordKey r ∧ r.toNat ≤ id.toNat) ∧
      (∀ step next, (machine (longTable [9])).step s (.insert step) = some next →
        ∃ put, next.db = s.db ++ [put] ∧ ∀ old ∈ s.db, old.isRecord = true → old.key ≠ put.key) ∧
      s.opened.returned.Nodup := by
  have ran : ((machine (longTable [9])).run (machine (longTable [9])).initial crashedRun).map (fun s => s.allocated) = some 3 := by
    decide +kernel
  obtain ⟨s, run, allocated⟩ := Option.map_eq_some_iff.mp ran
  exact ⟨s, run, ids_survive (longTable [9]) s ⟨crashedRun, run⟩ (by rw [allocated]; decide)⟩

end Toolbox8.LevelDB
