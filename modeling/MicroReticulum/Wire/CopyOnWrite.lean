import MicroReticulum.Library.Sharing
import MicroReticulum.Wire.Bytes
import Mathlib.Data.List.DropRight

/-!
# Copy on write

A `Bytes` object holds a pointer to a vector that other objects may hold too, and a flag that says whether it has
the vector for itself. A copy shares the vector and clears both flags; who changes the contents first takes a
vector of his own (`exclusiveData`).

Every operation is compared with the same operation on variables that are vectors of their own. They agree on every
run, except behind a write to an element: the non-const `operator[]` hands out an element of the vector as it is,
shared or not. `contents_of_run` says exactly which runs agree.

Capacities are left out: what is reserved is not part of the contents.
-/

namespace MicroReticulum.CopyOnWrite

open Library (Store Handle)

/-- The objects, and the vectors they point to. -/
abbrev Memory (V : Type) : Type := Store V Bytes

variable {V : Type} [DecidableEq V]

/-- What `data` and `size` show of an object. -/
def contents (s : Memory V) : V → Bytes := s.shows []

/-! ## `Bytes` -/

/-- `Bytes::newData` -/
def newData (x : V) (s : Memory V) : Memory V := s.allocate x []

/-- `Bytes::exclusiveData` -/
def exclusiveData (copy : Bool) (x : V) (s : Memory V) : Memory V :=
  match (s.handles x).cell with
  | none => newData x s
  | some data =>
    if (s.handles x).own = false then
      if copy && !(s.cells data).isEmpty then s.allocate x (s.cells data) else newData x s
    else s

/-- `Bytes::clear` -/
def clear (x : V) (s : Memory V) : Memory V := s.release x

/-- `Bytes::assign` of another object -/
def assign (x bytes : V) (s : Memory V) : Memory V := s.share x bytes

/-- What the overloads of `Bytes::assign` for anything but an object have in common. -/
def assignBytes (x : V) (data : Bytes) (s : Memory V) : Memory V :=
  if data.isEmpty then clear x s else (exclusiveData false x s).write x fun _ => data

/-- `Bytes::assign` of a vector -/
def assignData (x : V) (data : Bytes) (s : Memory V) : Memory V := assignBytes x data s

/-- `Bytes::assign` of a pointer and a size; there may be no pointer -/
def assignChunk (x : V) (chunk : Option Bytes) (s : Memory V) : Memory V := assignBytes x (chunk.getD []) s

/-- The characters in front of the terminating zero. -/
def cString (string : Bytes) : Bytes := string.takeWhile fun c => c ≠ 0

/-- `Bytes::assign` of a C string -/
def assignString (x : V) (string : Option Bytes) (s : Memory V) : Memory V :=
  assignBytes x (cString (string.getD [])) s

/-- The byte that two hex digits stand for. -/
def hexByte (a b : UInt8) : UInt8 :=
  UInt8.ofNat ((a.toNat % 32 + 9) % 25 * 16 + (b.toNat % 32 + 9) % 25)

/-- The loop that appends the bytes of a hex text; a digit left over is ignored. -/
def pushHex : Bytes → Bytes → Bytes
  | a :: b :: hex, data => pushHex hex (data ++ [hexByte a b])
  | _, data => data

/-- `Bytes::assignHex` -/
def assignHex (x : V) (hex : Option Bytes) (s : Memory V) : Memory V :=
  if (hex.getD []).length < 2 then clear x s
  else
    let s := exclusiveData false x s
    let s := s.write x fun _ => []
    s.write x (pushHex (hex.getD []))

/-- `Bytes::assignHex` of a C string: where there is none, nothing is assigned. -/
def assignHexString (x : V) (hex : Option Bytes) (s : Memory V) : Memory V :=
  match hex with
  | none => s
  | some hex => assignHex x (some (cString hex)) s

/-- `Bytes::append` of another object, which may be the same -/
def append (x bytes : V) (s : Memory V) : Memory V :=
  if (contents s bytes).isEmpty then s
  else
    let s := exclusiveData true x s
    s.write x fun data => data ++ contents s bytes

/-- What the overloads of `Bytes::append` for anything but an object have in common. -/
def appendBytes (x : V) (data : Bytes) (s : Memory V) : Memory V :=
  if data.isEmpty then s else (exclusiveData true x s).write x fun old => old ++ data

/-- `Bytes::append` of a vector -/
def appendData (x : V) (data : Bytes) (s : Memory V) : Memory V := appendBytes x data s

/-- `Bytes::append` of a pointer and a size -/
def appendChunk (x : V) (chunk : Option Bytes) (s : Memory V) : Memory V := appendBytes x (chunk.getD []) s

/-- `Bytes::append` of a C string -/
def appendString (x : V) (string : Option Bytes) (s : Memory V) : Memory V :=
  appendBytes x (cString (string.getD [])) s

/-- `Bytes::append` of a byte -/
def appendByte (x : V) (byte : UInt8) (s : Memory V) : Memory V :=
  (exclusiveData true x s).write x fun data => data ++ [byte]

/-- `Bytes::appendHex` -/
def appendHex (x : V) (hex : Option Bytes) (s : Memory V) : Memory V :=
  if (hex.getD []).length < 2 then s else (exclusiveData true x s).write x (pushHex (hex.getD []))

/-- `Bytes::appendHex` of a C string -/
def appendHexString (x : V) (hex : Option Bytes) (s : Memory V) : Memory V :=
  match hex with
  | none => s
  | some hex => appendHex x (some (cString hex)) s

/-- `std::vector::resize` -/
def resized (newsize : Nat) (data : Bytes) : Bytes := data.take newsize ++ List.replicate (newsize - data.length) 0

/-- `Bytes::resize` -/
def resize (x : V) (newsize : Nat) (s : Memory V) : Memory V :=
  if newsize = (contents s x).length then s else (exclusiveData true x s).write x (resized newsize)

/-- The non-const `Bytes::operator[]`, and a write to the element. Out of bounds it throws, and nothing is written. -/
def writeElement (x : V) (index : Nat) (byte : UInt8) (s : Memory V) : Memory V :=
  if index < (contents s x).length then s.write x fun data => data.set index byte else s

/-! ## Objects that are constructed -/

/-- `Bytes()` and `Bytes(NONE)` -/
def construct (x : V) (s : Memory V) : Memory V := s.release x

/-- `Bytes(size_t)` -/
def constructCapacity (x : V) (s : Memory V) : Memory V := newData x (construct x s)

/-- `Bytes::operator+` returns `result`. -/
def plus (result x bytes : V) (s : Memory V) : Memory V := append result bytes (assign result x (construct result s))

/-- `Bytes::mid` returns `result`. -/
def mid (result x : V) (beginpos len : Nat) (s : Memory V) : Memory V :=
  if (contents s x).length ≤ beginpos then construct result s
  else assignChunk result (some (((contents s x).drop beginpos).take (min len ((contents s x).length - beginpos))))
    (construct result s)

/-- `Bytes::mid` to the end -/
def midToEnd (result x : V) (beginpos : Nat) (s : Memory V) : Memory V :=
  if (contents s x).length ≤ beginpos then construct result s
  else assignChunk result (some ((contents s x).drop beginpos)) (construct result s)

/-- `Bytes::left` -/
def left (result x : V) (len : Nat) (s : Memory V) : Memory V :=
  assignChunk result (some ((contents s x).take (min len (contents s x).length))) (construct result s)

/-- `Bytes::right` -/
def right (result x : V) (len : Nat) (s : Memory V) : Memory V :=
  assignChunk result (some ((contents s x).drop ((contents s x).length - min len (contents s x).length)))
    (construct result s)

/-! ## What the operations do to the contents -/

section

variable {s : Memory V} {x : V}

/-- A new buffer is empty, and no other value sees it. -/
theorem newData_contents (hs : s.Sound) (x : V) :
    contents (newData x s) = Function.update (contents s) x [] :=
  Store.allocate_shows hs x []

/-- After `exclusiveData` the object has a vector of its own. Only its contents may have changed, and not if a
copy was asked for. -/
theorem exclusiveData_spec (copy : Bool) (x : V) (hs : s.Sound) :
    (exclusiveData copy x s).Sound
      ∧ (∃ data, (exclusiveData copy x s).handles x = { cell := some data, own := true })
      ∧ ∃ b, (copy = true → b = contents s x)
        ∧ contents (exclusiveData copy x s) = Function.update (contents s) x b := by
  have hnew : (∃ data, (newData x s).handles x = { cell := some data, own := true }) :=
    ⟨s.next, Function.update_self _ _ _⟩
  unfold exclusiveData
  split
  case h_1 hnone =>
    refine ⟨hs.allocate x [], hnew, [], fun _ => ?_, newData_contents hs x⟩
    exact (Store.shows_of_none hnone).symm
  case h_2 data hdata =>
    have hcontents : contents s x = s.cells data := Store.shows_of_cell hdata
    split
    · split
      · exact ⟨hs.allocate x _, ⟨s.next, Function.update_self _ _ _⟩, _, fun _ => hcontents.symm,
          Store.allocate_shows hs x _⟩
      · next hempty =>
        refine ⟨hs.allocate x [], hnew, [], fun hcopy => ?_, newData_contents hs x⟩
        rw [hcontents]
        simpa [hcopy] using hempty
    · next hown =>
      rw [Bool.not_eq_false] at hown
      refine ⟨hs, ⟨data, ?_⟩, contents s x, fun _ => rfl, (Function.update_eq_self _ _).symm⟩
      rw [← hdata, ← hown]

/-- The object `x` shows `v` now, and all others what they have shown. -/
structure Sets (x : V) (v : Bytes) (s s' : Memory V) : Prop where
  sound : s'.Sound
  shows : contents s' = Function.update (contents s) x v

theorem Sets.refl (hs : s.Sound) : Sets x (contents s x) s s := ⟨hs, (Function.update_eq_self _ _).symm⟩

theorem Sets.trans {s' s'' : Memory V} {v w : Bytes} (h : Sets x v s s') (h' : Sets x w s' s'') : Sets x w s s'' where
  sound := h'.sound
  shows := by rw [h'.shows, h.shows, Function.update_idem]

/-- Behind a write the value holds what was written. -/
theorem Sets.self {s' : Memory V} {v : Bytes} (h : Sets x v s s') : contents s' x = v := by
  rw [h.shows, Function.update_self]

/-- Behind a write every other value holds what it held, whether it shared its buffer or not. -/
theorem Sets.other {s' : Memory V} {v : Bytes} {y : V} (h : Sets x v s s') (hyx : y ≠ x) :
    contents s' y = contents s y := by
  rw [h.shows, Function.update_of_ne hyx]

/-- What a mutator does that takes the vector for itself first. -/
theorem exclusive_write (copy : Bool) (f : Bytes → Bytes) (hs : s.Sound) (hf : copy = true ∨ ∀ b b', f b = f b') :
    Sets x (f (contents s x)) s ((exclusiveData copy x s).write x f) := by
  obtain ⟨hsound, ⟨data, hdata⟩, b, hcopy, hcontents⟩ := exclusiveData_spec copy x hs
  refine ⟨hsound.write x f, ?_⟩
  have hwrite : contents ((exclusiveData copy x s).write x f)
      = Function.update (contents (exclusiveData copy x s)) x (f (contents (exclusiveData copy x s) x)) :=
    Store.write_shows_own hsound (congrArg Handle.cell hdata) (congrArg Handle.own hdata) f
  have hvalue : f b = f (contents s x) := by
    rcases hf with htrue | hconst
    · rw [hcopy htrue]
    · exact hconst _ _
  rw [hwrite, hcontents, Function.update_self, Function.update_idem, hvalue]

theorem construct_sets (hs : s.Sound) (x : V) : Sets x [] s (construct x s) :=
  ⟨hs.release x, Store.release_shows x s⟩

theorem clear_sets (hs : s.Sound) (x : V) : Sets x [] s (clear x s) := construct_sets hs x

/-- A value that is constructed with a capacity is empty too: the capacity is room, not contents. -/
theorem constructCapacity_sets (hs : s.Sound) (x : V) : Sets x [] s (constructCapacity x s) := by
  have hnew := construct_sets hs x
  exact hnew.trans ⟨hnew.sound.allocate x [], newData_contents hnew.sound x⟩

/-- An assignment makes the value hold what the other one holds; they share the buffer from then on. -/
theorem assign_sets (hs : s.Sound) (x bytes : V) : Sets x (contents s bytes) s (assign x bytes s) :=
  ⟨hs.share x bytes, Store.share_shows x bytes s⟩

/-- Assigning bytes gives the value a buffer of its own, or none for no bytes. -/
theorem assignBytes_sets (hs : s.Sound) (x : V) (data : Bytes) : Sets x data s (assignBytes x data s) := by
  unfold assignBytes
  split
  · next hempty =>
    rw [List.isEmpty_iff.mp hempty]
    exact clear_sets hs x
  · exact exclusive_write false (fun _ => data) hs (.inr fun _ _ => rfl)

/-- Appending writes behind the contents, into a buffer of its own: one that was shared is copied first. -/
theorem appendBytes_sets (hs : s.Sound) (x : V) (data : Bytes) :
    Sets x (contents s x ++ data) s (appendBytes x data s) := by
  unfold appendBytes
  split
  · next hempty =>
    rw [List.isEmpty_iff.mp hempty, List.append_nil]
    exact .refl hs
  · exact exclusive_write true (fun old => old ++ data) hs (.inl rfl)

/-- Appending one byte is appending a sequence of one. -/
theorem appendByte_sets (hs : s.Sound) (x : V) (byte : UInt8) :
    Sets x (contents s x ++ [byte]) s (appendByte x byte s) :=
  exclusive_write true (fun old => old ++ [byte]) hs (.inl rfl)

/-- Appending a value appends its contents, also when it is the value itself or shares its buffer. -/
theorem append_sets (hs : s.Sound) (x bytes : V) :
    Sets x (contents s x ++ contents s bytes) s (append x bytes s) := by
  unfold append
  split
  · next hempty =>
    rw [List.isEmpty_iff.mp hempty, List.append_nil]
    exact .refl hs
  · -- what is appended is looked up behind `exclusiveData`, which may have moved it
    obtain ⟨-, -, b, hcopy, hcontents⟩ := exclusiveData_spec true x hs
    have hsame : contents (exclusiveData true x s) bytes = contents s bytes := by
      rw [hcontents, hcopy rfl, Function.update_eq_self]
    dsimp only
    rw [hsame]
    exact exclusive_write true (fun data => data ++ contents s bytes) hs (.inl rfl)

/-- The bytes of a hex text. -/
def hexValue : Bytes → Bytes
  | a :: b :: hex => hexByte a b :: hexValue hex
  | _ => []

/-- The digits are read in pairs and pushed behind the data. -/
theorem pushHex_eq (hex data : Bytes) : pushHex hex data = data ++ hexValue hex := by
  fun_induction pushHex hex data with
  | case1 data a b hex ih => rw [ih, hexValue, List.append_assoc, List.singleton_append]
  | case2 hex data hshort =>
    rw [hexValue.eq_2 _ hshort, List.append_nil]

/-- Less than a pair of digits stands for nothing. -/
theorem hexValue_short {hex : Bytes} (h : hex.length < 2) : hexValue hex = [] := by
  fun_cases hexValue hex with
  | case1 a b hex =>
    simp only [List.length_cons] at h
    omega
  | case2 => rfl

/-- Assigning digits makes the value hold what they stand for, and nothing for a missing text. -/
theorem assignHex_sets (hs : s.Sound) (x : V) (hex : Option Bytes) :
    Sets x (hexValue (hex.getD [])) s (assignHex x hex s) := by
  unfold assignHex
  split
  · next hshort =>
    rw [hexValue_short hshort]
    exact clear_sets hs x
  · dsimp only
    rw [Store.write_write]
    have hsets := exclusive_write (x := x) false (pushHex (hex.getD []) ∘ fun _ => []) hs (.inr fun _ _ => rfl)
    rw [Function.comp_apply, pushHex_eq, List.nil_append] at hsets
    exact hsets

/-- Appending digits writes what they stand for behind the contents. -/
theorem appendHex_sets (hs : s.Sound) (x : V) (hex : Option Bytes) :
    Sets x (contents s x ++ hexValue (hex.getD [])) s (appendHex x hex s) := by
  unfold appendHex
  split
  · next hshort =>
    rw [hexValue_short hshort, List.append_nil]
    exact .refl hs
  · rw [← pushHex_eq]
    exact exclusive_write true (pushHex (hex.getD [])) hs (.inl rfl)

/-- A resize cuts the contents or fills them up with zeros, in a buffer of its own. -/
theorem resize_sets (hs : s.Sound) (x : V) (newsize : Nat) :
    Sets x (resized newsize (contents s x)) s (resize x newsize s) := by
  unfold resize
  split
  · next hsame =>
    have hself : resized newsize (contents s x) = contents s x := by
      simp [resized, hsame]
    rw [hself]
    exact .refl hs
  · exact exclusive_write true (resized newsize) hs (.inl rfl)

/-! ## Objects that are returned -/

/-- The sum of two values holds their contents one behind the other, and neither of them changes. -/
theorem plus_sets (hs : s.Sound) {result x bytes : V} (hx : x ≠ result) (hbytes : bytes ≠ result) :
    Sets result (contents s x ++ contents s bytes) s (plus result x bytes s) := by
  have hnew := construct_sets hs result
  have hcopy := hnew.trans (assign_sets hnew.sound result x)
  rw [hnew.other hx] at hcopy
  have hplus := hcopy.trans (append_sets hcopy.sound result bytes)
  rw [hcopy.self, hcopy.other hbytes] at hplus
  exact hplus

/-- An object that is constructed from the bytes of a vector. -/
theorem constructChunk_sets (hs : s.Sound) (result : V) (data : Bytes) :
    Sets result data s (assignChunk result (some data) (construct result s)) := by
  have hnew := construct_sets hs result
  exact hnew.trans (assignBytes_sets hnew.sound result data)

/-- A part is taken from the contents, cut where they end. -/
theorem mid_sets (hs : s.Sound) (result x : V) (beginpos len : Nat) :
    Sets result (((contents s x).drop beginpos).take len) s (mid result x beginpos len s) := by
  unfold mid
  split
  · next hend =>
    rw [List.drop_eq_nil_of_le hend, List.take_nil]
    exact construct_sets hs result
  · rw [← List.length_drop, ← List.take_eq_take_min]
    exact constructChunk_sets hs result _

/-- A rest is taken from the contents, empty where they end before it begins. -/
theorem midToEnd_sets (hs : s.Sound) (result x : V) (beginpos : Nat) :
    Sets result ((contents s x).drop beginpos) s (midToEnd result x beginpos s) := by
  unfold midToEnd
  split
  · next hend =>
    rw [List.drop_eq_nil_of_le hend]
    exact construct_sets hs result
  · exact constructChunk_sets hs result _

/-- The first bytes are taken from the contents, or all of them. -/
theorem left_sets (hs : s.Sound) (result x : V) (len : Nat) :
    Sets result ((contents s x).take len) s (left result x len s) := by
  unfold left
  rw [← List.take_eq_take_min]
  exact constructChunk_sets hs result _

/-- The last bytes are taken from the contents, or all of them. -/
theorem right_sets (hs : s.Sound) (result x : V) (len : Nat) :
    Sets result ((contents s x).rtake len) s (right result x len s) := by
  have hright : (contents s x).rtake len
      = (contents s x).drop ((contents s x).length - min len (contents s x).length) := by
    unfold List.rtake
    congr 1
    omega
  rw [hright]
  exact constructChunk_sets hs result _

end

/-! ## Programs -/

/-- What an object is constructed from, assigned, or has appended to it. -/
inductive Operand (V : Type) where
  | bytes (y : V)
  | data (data : Bytes)
  | chunk (chunk : Option Bytes)
  | string (string : Option Bytes)

/-- What returns an object. -/
inductive Call (V : Type) where
  | plus (x y : V)
  | mid (x : V) (beginpos len : Nat)
  | midToEnd (x : V) (beginpos : Nat)
  | left (x : V) (len : Nat)
  | right (x : V) (len : Nat)

/-- The operations of a program whose variables are named by `V`. -/
inductive Op (V : Type) where
  | construct (x : V)
  | constructCapacity (x : V)
  | constructFrom (x : V) (operand : Operand V)
  /-- an object that is returned becomes the variable -/
  | constructResult (x : V) (call : Call V)
  | assign (x : V) (operand : Operand V)
  | assignResult (x : V) (call : Call V)
  | assignHex (x : V) (hex : Option Bytes)
  | assignHexString (x : V) (hex : Option Bytes)
  /-- `+=` and `<<` as well -/
  | append (x : V) (operand : Operand V)
  | appendByte (x : V) (byte : UInt8)
  | appendHex (x : V) (hex : Option Bytes)
  | appendHexString (x : V) (hex : Option Bytes)
  | resize (x : V) (newsize : Nat)
  | clear (x : V)
  | writeElement (x : V) (index : Nat) (byte : UInt8)

/-! The objects are the variables, and the one that a call returns. -/

section

def Operand.assignTo (x : Option V) (s : Memory (Option V)) : Operand V → Memory (Option V)
  | .bytes y => CopyOnWrite.assign x (some y) s
  | .data b => assignData x b s
  | .chunk b => assignChunk x b s
  | .string b => assignString x b s

def Operand.appendTo (x : Option V) (s : Memory (Option V)) : Operand V → Memory (Option V)
  | .bytes y => CopyOnWrite.append x (some y) s
  | .data b => appendData x b s
  | .chunk b => appendChunk x b s
  | .string b => appendString x b s

def Call.run (s : Memory (Option V)) : Call V → Memory (Option V)
  | .plus x y => CopyOnWrite.plus none (some x) (some y) s
  | .mid x beginpos len => CopyOnWrite.mid none (some x) beginpos len s
  | .midToEnd x beginpos => CopyOnWrite.midToEnd none (some x) beginpos s
  | .left x len => CopyOnWrite.left none (some x) len s
  | .right x len => CopyOnWrite.right none (some x) len s

def Op.step (s : Memory (Option V)) : Op V → Memory (Option V)
  | .construct x => CopyOnWrite.construct (some x) s
  | .constructCapacity x => CopyOnWrite.constructCapacity (some x) s
  | .constructFrom x operand => operand.assignTo (some x) (CopyOnWrite.construct (some x) s)
  | .constructResult x call => (call.run s).rename (some x) none
  | .assign x operand => operand.assignTo (some x) s
  -- the object that was returned goes when it has been assigned
  | .assignResult x call => (CopyOnWrite.assign (some x) none (call.run s)).release none
  | .assignHex x hex => CopyOnWrite.assignHex (some x) hex s
  | .assignHexString x hex => CopyOnWrite.assignHexString (some x) hex s
  | .append x operand => operand.appendTo (some x) s
  | .appendByte x byte => CopyOnWrite.appendByte (some x) byte s
  | .appendHex x hex => CopyOnWrite.appendHex (some x) hex s
  | .appendHexString x hex => CopyOnWrite.appendHexString (some x) hex s
  | .resize x newsize => CopyOnWrite.resize (some x) newsize s
  | .clear x => CopyOnWrite.clear (some x) s
  | .writeElement x index byte => CopyOnWrite.writeElement (some x) index byte s

/-- What the variables show. -/
def shown (s : Memory (Option V)) : V → Bytes := contents s ∘ some

/-- No object has been constructed. -/
def start : Memory (Option V) where
  handles _ := {}
  cells _ := []
  next := 0

def run (ops : List (Op V)) : Memory (Option V) := ops.foldl Op.step start

end

/-! ## The same programs with vectors of their own -/

section

variable (m : V → Bytes)

def Operand.value : Operand V → Bytes
  | .bytes y => m y
  | .data b => b
  | .chunk b => b.getD []
  | .string b => cString (b.getD [])

def Call.value : Call V → Bytes
  | .plus x y => m x ++ m y
  | .mid x beginpos len => ((m x).drop beginpos).take len
  | .midToEnd x beginpos => (m x).drop beginpos
  | .left x len => (m x).take len
  | .right x len => (m x).rtake len

def Op.vectors : Op V → V → Bytes
  | .construct x | .constructCapacity x | .clear x => Function.update m x []
  | .constructFrom x operand => Function.update m x (operand.value (Function.update m x []))
  | .assign x operand => Function.update m x (operand.value m)
  | .constructResult x call | .assignResult x call => Function.update m x (call.value m)
  | .assignHex x hex => Function.update m x (hexValue (hex.getD []))
  | .assignHexString x hex => hex.elim m fun hex => Function.update m x (hexValue (cString hex))
  | .append x operand => Function.update m x (m x ++ operand.value m)
  | .appendByte x byte => Function.update m x (m x ++ [byte])
  | .appendHex x hex => Function.update m x (m x ++ hexValue (hex.getD []))
  | .appendHexString x hex => hex.elim m fun hex => Function.update m x (m x ++ hexValue (cString hex))
  | .resize x newsize => Function.update m x (resized newsize (m x))
  | .writeElement x index byte => Function.update m x ((m x).set index byte)

end

def vectors (ops : List (Op V)) : V → Bytes := ops.foldl (fun m op => op.vectors m) fun _ => []

/-- A write to an element goes through a variable that has its vector alone, or it writes nothing new. -/
def Op.Meets (s : Memory (Option V)) : Op V → Prop
  | .writeElement x index byte =>
    (∃ y, y ≠ x ∧ s.Shares (some x) (some y)) → (shown s x).set index byte = shown s x
  | _ => True

/-! ## The comparison -/

variable {s : Memory (Option V)} {x : V}

/-- What a step has to keep. -/
structure Agrees (s' : Memory (Option V)) (m : V → Bytes) : Prop where
  sound : s'.Sound
  shows : shown s' = m

/-- A write into a value that is shown changes what is shown of it and of nothing else. -/
theorem Sets.agrees {v : Bytes} {s' : Memory (Option V)} (h : Sets (some x) v s s') :
    Agrees s' (Function.update (shown s) x v) where
  sound := h.sound
  shows := by
    unfold shown
    rw [h.shows, Function.update_comp_eq_of_injective _ (Option.some_injective V)]

/-- Whatever kind of operand is assigned, the value holds what the operand stands for. -/
theorem Operand.assignTo_sets (hs : s.Sound) (x : Option V) (operand : Operand V) :
    Sets x (operand.value (shown s)) s (operand.assignTo x s) := by
  cases operand with
  | bytes y => exact assign_sets hs x (some y)
  | data data => exact assignBytes_sets hs x data
  | chunk chunk => exact assignBytes_sets hs x _
  | string string => exact assignBytes_sets hs x _

/-- Whatever kind of operand is appended, the value holds what the operand stands for behind its contents. -/
theorem Operand.appendTo_sets (hs : s.Sound) (x : Option V) (operand : Operand V) :
    Sets x (contents s x ++ operand.value (shown s)) s (operand.appendTo x s) := by
  cases operand with
  | bytes y => exact append_sets hs x (some y)
  | data data => exact appendBytes_sets hs x data
  | chunk chunk => exact appendBytes_sets hs x _
  | string string => exact appendBytes_sets hs x _

/-- A call leaves its result in the temporary, and everything else alone. -/
theorem Call.run_sets (hs : s.Sound) (call : Call V) :
    Sets none (call.value (shown s)) s (call.run s) := by
  have hsome : ∀ y : V, some y ≠ none := Option.some_ne_none
  cases call with
  | plus x y => exact plus_sets hs (hsome x) (hsome y)
  | mid x beginpos len => exact mid_sets hs none (some x) beginpos len
  | midToEnd x beginpos => exact midToEnd_sets hs none (some x) beginpos
  | left x len => exact left_sets hs none (some x) len
  | right x len => exact right_sets hs none (some x) len

/-- What is returned ends in the variable. -/
theorem constructResult_agrees (hs : s.Sound) (x : V) (call : Call V) :
    Agrees ((call.run s).rename (some x) none) (Function.update (shown s) x (call.value (shown s))) := by
  have hcall := call.run_sets hs
  refine ⟨hcall.sound.rename _ _, ?_⟩
  have hshows : contents ((call.run s).rename (some x) none)
      = Function.update (Function.update (contents (call.run s)) none []) (some x) (contents (call.run s) none) :=
    Store.rename_shows (Option.some_ne_none x) _
  funext y
  unfold shown
  rw [hshows, hcall.self, hcall.shows, Function.update_comp_eq_of_injective _ (Option.some_injective V)]
  by_cases hyx : y = x
  · subst hyx
    rw [Function.update_self, Function.update_self]
    rfl
  · rw [Function.update_of_ne hyx, Function.update_of_ne hyx]
    simp [Function.comp_apply]

/-- Assigning the result of a call and giving up the temporary shows the result, and nothing else changes. -/
theorem assignResult_agrees (hs : s.Sound) (x : V) (call : Call V) :
    Agrees ((CopyOnWrite.assign (some x) none (call.run s)).release none)
      (Function.update (shown s) x (call.value (shown s))) := by
  have hcall := call.run_sets hs
  have hassign := assign_sets hcall.sound (some x) none
  have hrelease := clear_sets hassign.sound none
  refine ⟨hrelease.sound, ?_⟩
  funext y
  change contents (clear none (CopyOnWrite.assign (some x) none (call.run s))) (some y) = _
  rw [hrelease.other (Option.some_ne_none y)]
  by_cases hyx : y = x
  · subst hyx
    rw [Function.update_self, hassign.self, hcall.self]
  · have hne : some y ≠ some x := fun heq => hyx (Option.some.inj heq)
    rw [Function.update_of_ne hyx, hassign.other hne, hcall.other (Option.some_ne_none y)]
    rfl

/-! ### Writing to an element -/

omit [DecidableEq V] in
/-- Writing an element through the operator keeps the reference counts right, though it writes into a buffer that may
be shared. -/
theorem writeElement_sound (hs : s.Sound) (x : Option V) (index : Nat) (byte : UInt8) :
    (writeElement x index byte s).Sound := by
  unfold writeElement
  split
  · exact hs.write x _
  · exact hs

omit [DecidableEq V] in
/-- The variable that is written through shows what is written, in any case. -/
theorem writeElement_self (x : V) (index : Nat) (byte : UInt8) :
    shown (writeElement (some x) index byte s) x = (shown s x).set index byte := by
  classical
  unfold writeElement
  split
  case isTrue hindex =>
    cases hc : (s.handles (some x)).cell with
    | none =>
      rw [show contents s (some x) = [] from Store.shows_of_none hc] at hindex
      cases hindex
    | some c =>
      have hself : s.Shares (some x) (some x) := ⟨c, hc, hc⟩
      exact (Store.write_shows hc (fun data => data.set index byte) (some x)).trans (if_pos hself)
  case isFalse hindex => exact (List.set_eq_of_length_le (Nat.le_of_not_lt hindex)).symm

omit [DecidableEq V] in
/-- Another variable shows it if it shares the vector. -/
theorem writeElement_other (x y : V) (index : Nat) (byte : UInt8) [Decidable (s.Shares (some x) (some y))] :
    shown (writeElement (some x) index byte s) y
      = if s.Shares (some x) (some y) then (shown s x).set index byte else shown s y := by
  unfold writeElement
  split
  case isTrue hindex =>
    cases hc : (s.handles (some x)).cell with
    | none =>
      rw [show contents s (some x) = [] from Store.shows_of_none hc] at hindex
      cases hindex
    | some c => exact Store.write_shows hc _ _
  case isFalse hindex =>
    have hset : (shown s x).set index byte = shown s x := List.set_eq_of_length_le (Nat.le_of_not_lt hindex)
    rw [hset]
    split
    · next hshares =>
      obtain ⟨c, hx, hy⟩ := hshares
      exact (Store.shows_of_cell hy).trans (Store.shows_of_cell hx).symm
    · rfl

/-- Writing an element shows in the value alone exactly if the buffer is its own. A shared buffer shows the byte in
the copies too. -/
theorem writeElement_agrees_iff (x : V) (index : Nat) (byte : UInt8) :
    shown (writeElement (some x) index byte s) = Function.update (shown s) x ((shown s x).set index byte)
      ↔ (Op.writeElement x index byte).Meets s := by
  classical
  constructor
  · rintro hshown ⟨y, hyx, hshares⟩
    have hy := congrFun hshown y
    rw [writeElement_other, if_pos hshares, Function.update_of_ne hyx] at hy
    obtain ⟨c, hxc, hyc⟩ := hshares
    have hsame : shown s y = shown s x := (Store.shows_of_cell hyc).trans (Store.shows_of_cell hxc).symm
    rw [hy, hsame]
  · intro hmeets
    funext y
    by_cases hyx : y = x
    · subst hyx
      rw [Function.update_self, writeElement_self]
    · rw [Function.update_of_ne hyx, writeElement_other]
      split
      · next hshares =>
        rw [hmeets ⟨y, hyx, hshares⟩]
        obtain ⟨c, hxc, hyc⟩ := hshares
        exact (Store.shows_of_cell hxc).trans (Store.shows_of_cell hyc).symm
      · rfl

/-! ### Steps and runs -/

theorem step_sound (hs : s.Sound) (op : Op V) : (op.step s).Sound := by
  cases op with
  | construct x => exact (construct_sets hs _).sound
  | constructCapacity x => exact (constructCapacity_sets hs _).sound
  | constructFrom x operand => exact (operand.assignTo_sets (construct_sets hs _).sound _).sound
  | constructResult x call => exact (constructResult_agrees hs x call).sound
  | assign x operand => exact (operand.assignTo_sets hs _).sound
  | assignResult x call => exact (assignResult_agrees hs x call).sound
  | assignHex x hex => exact (assignHex_sets hs _ hex).sound
  | assignHexString x hex =>
    cases hex with
    | none => exact hs
    | some hex => exact (assignHex_sets hs _ _).sound
  | append x operand => exact (operand.appendTo_sets hs _).sound
  | appendByte x byte => exact (appendByte_sets hs _ byte).sound
  | appendHex x hex => exact (appendHex_sets hs _ hex).sound
  | appendHexString x hex =>
    cases hex with
    | none => exact hs
    | some hex => exact (appendHex_sets hs _ _).sound
  | resize x newsize => exact (resize_sets hs _ newsize).sound
  | clear x => exact (clear_sets hs _).sound
  | writeElement x index byte => exact writeElement_sound hs _ index byte

/-- A step agrees with the same step on vectors, unless it writes to an element that others share. -/
theorem step_agrees_iff (hs : s.Sound) (op : Op V) : shown (op.step s) = op.vectors (shown s) ↔ op.Meets s := by
  cases op with
  | writeElement x index byte => exact writeElement_agrees_iff x index byte
  | construct x => exact iff_of_true (construct_sets hs _).agrees.shows trivial
  | constructCapacity x => exact iff_of_true (constructCapacity_sets hs _).agrees.shows trivial
  | constructFrom x operand =>
    refine iff_of_true ?_ trivial
    have hnew := construct_sets hs (some x)
    have hassign := (hnew.trans (operand.assignTo_sets hnew.sound _)).agrees.shows
    rw [hnew.agrees.shows] at hassign
    exact hassign
  | constructResult x call => exact iff_of_true (constructResult_agrees hs x call).shows trivial
  | assign x operand => exact iff_of_true (operand.assignTo_sets hs _).agrees.shows trivial
  | assignResult x call => exact iff_of_true (assignResult_agrees hs x call).shows trivial
  | assignHex x hex => exact iff_of_true (assignHex_sets hs _ hex).agrees.shows trivial
  | assignHexString x hex =>
    cases hex with
    | none => exact iff_of_true rfl trivial
    | some hex => exact iff_of_true (assignHex_sets hs _ _).agrees.shows trivial
  | append x operand => exact iff_of_true (operand.appendTo_sets hs _).agrees.shows trivial
  | appendByte x byte => exact iff_of_true (appendByte_sets hs _ byte).agrees.shows trivial
  | appendHex x hex => exact iff_of_true (appendHex_sets hs _ hex).agrees.shows trivial
  | appendHexString x hex =>
    cases hex with
    | none => exact iff_of_true rfl trivial
    | some hex => exact iff_of_true (appendHex_sets hs _ _).agrees.shows trivial
  | resize x newsize => exact iff_of_true (resize_sets hs _ newsize).agrees.shows trivial
  | clear x => exact iff_of_true (clear_sets hs _).agrees.shows trivial

/-- A program with one more operation runs like the program and then the operation. -/
theorem run_append (ops : List (Op V)) (op : Op V) : run (ops ++ [op]) = op.step (run ops) :=
  List.foldl_concat _ _ _ _

/-- On plain vectors a program with one more operation runs the same way. -/
theorem vectors_append (ops : List (Op V)) (op : Op V) : vectors (ops ++ [op]) = op.vectors (vectors ops) :=
  List.foldl_concat _ _ _ _

omit [DecidableEq V] in
theorem start_sound : (start : Memory (Option V)).Sound where
  allocated h := by cases h
  apart _ hshares := by
    obtain ⟨c, hc, -⟩ := hshares
    cases hc

/-- After every program the reference counts are right. -/
theorem run_sound (ops : List (Op V)) : (run ops).Sound := by
  induction ops using List.reverseRecOn with
  | nil => exact start_sound
  | append_singleton ops op ih =>
    rw [run_append]
    exact step_sound ih op

/-- After every operation of a program the variables show what they would show with vectors of their own, if and
only if each write to an element goes through a variable that shares its vector with no other, or writes what is
there already. -/
theorem contents_of_run (program : List (Op V)) :
    (∀ ops, ops <+: program → shown (run ops) = vectors ops)
      ↔ ∀ ops op, ops ++ [op] <+: program → op.Meets (run ops) := by
  constructor
  · intro hagrees ops op hprogram
    have hbefore := hagrees ops ((List.prefix_append ops [op]).trans hprogram)
    have hafter := hagrees _ hprogram
    rw [run_append, vectors_append, ← hbefore] at hafter
    exact (step_agrees_iff (run_sound ops) op).mp hafter
  · intro hmeets ops
    induction ops using List.reverseRecOn with
    | nil => exact fun _ => rfl
    | append_singleton ops op ih =>
      intro hprogram
      have hbefore := ih ((List.prefix_append ops [op]).trans hprogram)
      rw [run_append, vectors_append, ← hbefore]
      exact (step_agrees_iff (run_sound ops) op).mpr (hmeets ops op hprogram)

/-- A copy shows what is written to an element of the original. -/
theorem write_shows_in_copy :
    ¬ ∀ program : List (Op Bool), ∀ ops, ops <+: program → shown (run ops) = vectors ops := by
  intro h
  have hcopy := congrFun (h [.constructFrom true (.data [49]), .constructFrom false (.bytes true),
    .writeElement true 0 50] _ (List.prefix_refl _)) false
  revert hcopy
  decide

end MicroReticulum.CopyOnWrite
