import Toolbox8.Base.BigEndian
import Toolbox8.Base.Transition
import Toolbox8.ByteStrings

set_option autoImplicit false

namespace Toolbox8.LevelDB

open Base

inductive KeySize where
  | byteSize
  | shortsize
  | intSize
  | longSize
deriving DecidableEq, Repr

def KeySize.size : KeySize → Nat
  | .byteSize => 1
  | .shortsize => 2
  | .intSize => 4
  | .longSize => 8

-- An id is a signed Byte, Short, Int or Long; adding to it wraps around.
abbrev KeySize.Id (keySize : KeySize) : Type := BitVec (8 * keySize.size)

-- put, putShort, putInt and putLong of a ByteBuffer.
def KeySize.bytes (keySize : KeySize) (id : keySize.Id) : ByteString := bytesOf keySize.size id.toNat

-- get, getShort, getInt and getLong of a wrapped array, which throw where there are not enough bytes.
def KeySize.read (keySize : KeySize) (array : ByteString) : Option keySize.Id :=
  if array.length < keySize.size then none
  else some (BitVec.ofNat (8 * keySize.size) (valueOf (array.take keySize.size)))

-- The id that a key provider starts from; an init of none is null.
def KeySize.keyProvider (keySize : KeySize) : Option ByteString → Option keySize.Id
  | none => some 0
  | some init => keySize.read init

-- isRecord tells the second put of an insert from its first one.
structure Put where
  key : ByteString
  value : ByteString
  isRecord : Bool
deriving DecidableEq, Repr

-- A database is the sequence of puts that have been executed, and get finds the last one for its key.
def get (db : List Put) (key : ByteString) : Option ByteString :=
  db.foldl (fun found put => if put.key = key then some put.value else found) none

structure LevelDBTable where
  prefixBytes : ByteString
  keySize : KeySize
deriving DecidableEq, Repr

def table (keySize : KeySize) (prefixBytes : ByteString) : LevelDBTable := ⟨prefixBytes, keySize⟩

def longTable (prefixBytes : ByteString) : LevelDBTable := table .longSize prefixBytes

def intPrefix (v : BitVec 32) : ByteString := KeySize.bytes .intSize v

-- What the buffer holds before an id is put into it.
def LevelDBTable.allocateKeyBuffer (t : LevelDBTable) : ByteString := t.prefixBytes

def LevelDBTable.metaKey (t : LevelDBTable) : ByteString := t.allocateKeyBuffer ++ List.replicate t.keySize.size 0

def LevelDBTable.recordKey (t : LevelDBTable) (id : t.keySize.Id) : ByteString := t.allocateKeyBuffer ++ t.keySize.bytes id

-- An insert that has left the synchronized block and has not put its record yet.
structure Inserting (t : LevelDBTable) where
  keyBuffer : ByteString
  id : t.keySize.Id
  data : ByteString
deriving DecidableEq, Repr

-- A table object: the id of its key provider, the inserts under way and the ids that insert has returned.
structure Opened (t : LevelDBTable) where
  id : t.keySize.Id
  inserting : List (Inserting t)
  returned : List t.keySize.Id
deriving DecidableEq, Repr

-- The constructor throws when the meta value is too short.
def LevelDBTable.openOn (t : LevelDBTable) (db : List Put) : Option (Opened t) :=
  (t.keySize.keyProvider (get db t.metaKey)).map (fun id => ⟨id, [], []⟩)

-- The two atomic steps of insert: the synchronized block, and the put of the record of the i-th insert under way.
inductive InsertStep where
  | next (data : ByteString)
  | record (i : Nat)
deriving DecidableEq, Repr

def insert (t : LevelDBTable) (opened : Opened t) : InsertStep → Option (Opened t × Put)
  | .next data =>
      let id := opened.id + 1
      let keyBuffer := t.allocateKeyBuffer ++ t.keySize.bytes id
      some ({ opened with id := id, inserting := opened.inserting ++ [⟨keyBuffer, id, data⟩] },
        ⟨t.metaKey, keyBuffer.drop t.prefixBytes.length, false⟩)
  | .record i =>
      (opened.inserting[i]?).map (fun inserting =>
        ({ opened with inserting := opened.inserting.eraseIdx i, returned := opened.returned ++ [inserting.id] },
          ⟨inserting.keyBuffer, inserting.data, true⟩))

-- allocated counts the ids that have been allocated in all of the run.
structure State (t : LevelDBTable) where
  db : List Put
  opened : Opened t
  allocated : Nat
deriving DecidableEq, Repr

-- A crash keeps the first puts, and the table is opened again.
inductive Event where
  | insert (step : InsertStep)
  | crash (kept : Nat)
deriving DecidableEq, Repr

def InsertStep.allocates : InsertStep → Nat
  | .next _ => 1
  | .record _ => 0

def machine (t : LevelDBTable) : Machine (State t) Event where
  initial := ⟨[], ⟨0, [], []⟩, 0⟩
  step := fun s event =>
    match event with
    | .insert step =>
        (insert t s.opened step).map (fun (opened, put) => ⟨s.db ++ [put], opened, s.allocated + step.allocates⟩)
    | .crash kept => (t.openOn (s.db.take kept)).map (fun opened => ⟨s.db.take kept, opened, s.allocated⟩)

@[simp] theorem get_nil (key : ByteString) : get [] key = none := rfl

theorem get_put (db : List Put) (put : Put) (key : ByteString) :
    get (db ++ [put]) key = if put.key = key then some put.value else get db key := by
  rw [get, List.foldl_append]
  rfl

section Keys

variable (t : LevelDBTable)

theorem bytes_length (keySize : KeySize) (id : keySize.Id) : (keySize.bytes id).length = keySize.size :=
  bytes_of_length keySize.size id.toNat

theorem read_bytes (keySize : KeySize) (id : keySize.Id) : keySize.read (keySize.bytes id) = some id := by
  have full := bytes_length keySize id
  rw [KeySize.read, if_neg (by omega), List.take_of_length_le (Nat.le_of_eq full)]
  exact congrArg some (word_read_back id)

theorem meta_key_is_zero : t.metaKey = t.recordKey 0 := by
  have zero : (0 : t.keySize.Id).toNat = 0 := by simp
  rw [LevelDBTable.metaKey, LevelDBTable.recordKey, KeySize.bytes, zero, bytes_of_zero]

theorem record_key_injective (x y : t.keySize.Id) (same : t.recordKey x = t.recordKey y) : x = y :=
  word_bytes_injective x y (List.append_cancel_left same)

theorem record_key_not_meta (id : t.keySize.Id) (positive : 0 < id.toNat) : t.recordKey id ≠ t.metaKey := by
  intro same
  rw [meta_key_is_zero] at same
  rw [record_key_injective t id 0 same] at positive
  simp at positive

theorem record_key_rest (id : t.keySize.Id) : (t.recordKey id).drop t.prefixBytes.length = t.keySize.bytes id :=
  List.drop_left

end Keys

end Toolbox8.LevelDB
