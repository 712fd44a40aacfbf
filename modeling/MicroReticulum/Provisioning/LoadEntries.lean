import MicroReticulum.Provisioning.Invariant

/-!
# A settings file, entry by entry

What a file should set is said of its entries: `setsOf` looks at one of them, and at its key as the integer that was
written. What `unpack_namespace_working` does with a file is `fileSets`. `only_good_iff` says when the two are the same
and every key is read from its own place: a value that is refused because of its wire type is left where it is, and the
cast of a key to a field id keeps 16 bits.

What the application makes of a value that was taken over is its own matter.
-/

namespace MicroReticulum.Provisioning

open MicroReticulum Library

variable {R F : Type} {env : Env F} {d : NamespaceDecl R}

/-! ## What a file should set -/

/-- A value for a field: what it is set to. -/
def acceptedFor (env : Env F) (f : Field R) (o : Object) : List (FieldId × Value) :=
  if wireMatches f.type o ∧ f.validate (valueOf env.floatOfInt f.type o) then
    [(f.id, valueOf env.floatOfInt f.type o)]
  else []

/-- What an entry should set: the field its key names, to a value of its type that it validates. -/
def setsOf (env : Env F) (d : NamespaceDecl R) (e : Object × Object) : List (FieldId × Value) :=
  match e.1 with
  | .int k => ((d.fields.find? fun f => (f.id.toNat : Int) = k).map fun f => acceptedFor env f e.2).getD []
  | _ => []

def putPair (s : NamespaceState) (e : FieldId × Value) : NamespaceState := s.putWorking e.1 e.2

/-- What the loader sets, in order. -/
def fileSets (env : Env F) (d : NamespaceDecl R) (c : Cursor) : List (FieldId × Value) :=
  ((fileValues env d c).filter fun e => e.1.validate e.2).map fun e => (e.1.id, e.2)

theorem foldl_takeOver (es : List (Field R × Value)) (s : NamespaceState) :
    es.foldl takeOver s = ((es.filter fun e => e.1.validate e.2).map fun e => (e.1.id, e.2)).foldl putPair s := by
  induction es generalizing s with
  | nil => rfl
  | cons e es ih =>
    rw [List.foldl_cons, ih]
    unfold takeOver
    by_cases hvalid : e.1.validate e.2 = true
    case pos => rw [if_pos hvalid, List.filter_cons, if_pos hvalid, List.map_cons, List.foldl_cons, putPair]
    case neg => rw [if_neg hvalid, List.filter_cons, if_neg hvalid]

/-- The working values of a namespace change by what the loader sets. -/
theorem unpackNamespaceWorking_sets (env : Env F) (d : NamespaceDecl R) (c : Cursor) (s : NamespaceState) :
    (unpackNamespaceWorking env d c s).2 = (fileSets env d c).foldl putPair s := by
  rw [unpackNamespaceWorking_eq, foldl_takeOver]
  rfl

/-! ## One entry -/

/-- What an entry is read as when it is read from its own place. -/
def valuesOf (env : Env F) (d : NamespaceDecl R) (e : Object × Object) : List (Field R × Value) :=
  match e.1 with
  | .int k =>
    match d.findField (idOfWire k) with
    | none => []
    | some f => if wireMatches f.type e.2 then [(f, valueOf env.floatOfInt f.type e.2)] else []
  | _ => []

theorem entryValue_values (e : Object × Object) (rest : Cursor) :
    (entryValue env d (writeEntry e rest)).1 = valuesOf env d e := by
  obtain ⟨k, v⟩ := e
  cases k with
  | int k =>
    show (entryValue env d (.int k :: (v.tokens ++ rest))).1 = _
    unfold entryValue valuesOf
    dsimp only
    cases d.findField (idOfWire k) with
    | none => rfl
    | some f =>
      dsimp only
      cases hmatch : wireMatches f.type v with
      | true => rw [unpackValue_of_wireMatches env.floatOfInt hmatch, if_pos rfl]
      | false =>
        obtain ⟨c, hc, -⟩ := unpackValue_of_not_wireMatches env.floatOfInt hmatch rest
        rw [hc, if_neg Bool.false_ne_true]
  | _ => rfl

theorem entryValue_passes_iff (e : Object × Object) (rest : Cursor) :
    (entryValue env d (writeEntry e rest)).2 = rest ↔ FieldPassed (some d) e := by
  obtain ⟨k, v⟩ := e
  have hskip := skip_entry_eq_iff (k, v) rest
  cases hkey : k with
  | int k =>
    show (entryValue env d (.int k :: (v.tokens ++ rest))).2 = rest ↔ _
    unfold entryValue FieldPassed
    simp only [Option.bind_some]
    cases d.findField (idOfWire k) with
    | none => exact skipValue_eq_iff v rest
    | some f =>
      dsimp only
      cases hmatch : wireMatches f.type v with
      | true => simp only [unpackValue_of_wireMatches env.floatOfInt hmatch]
      | false =>
        obtain ⟨c, hc, hlen⟩ := unpackValue_of_not_wireMatches env.floatOfInt hmatch rest
        simp only [hc, Bool.false_eq_true, iff_false]
        rintro rfl
        exact lt_irrefl _ hlen
  | _ =>
    rw [hkey] at hskip
    exact hskip

/-- The loop over a file, on the working values. -/
def workingLoop (env : Env F) (d : NamespaceDecl R) : Loop Cursor NamespaceState (Object × Object) where
  body := workingEntry env d
  log c _ := [c]
  write := writeEntry
  positions := fieldPositions
  good := FieldPassed (some d)
  late _ := True
  effect e s := (valuesOf env d e).foldl takeOver s
  invariant _ := True
  late_of_good _ _ := trivial
  invariant_effect _ _ _ := trivial
  log_head _ _ := ⟨[], rfl⟩
  positions_head := fieldPositions_head
  log_of_late _ _ _ _ _ := rfl
  log_of_not_late _ _ _ _ h := absurd trivial h
  body_of_late e rest s _ _ := by rw [workingEntry_eq, entryValue_values]
  passed_iff e rest s _ _ := by rw [workingEntry_eq, entryValue_passes_iff]

/-- What is read of entries that are passed. -/
theorem gather_entries {entries : List (Object × Object)}
    (h : AllButLast (FieldPassed (some d)) (fun _ => True) entries) (after : Cursor) :
    (gather (entryValue env d) entries.length (Object.entryTokens entries ++ after)).1
      = entries.flatMap (valuesOf env d) := by
  rw [entryTokens_append]
  induction entries with
  | nil => rfl
  | cons e es ih =>
    show (entryValue env d (writeEntry e (es.foldr writeEntry after))).1
      ++ (gather (entryValue env d) es.length (entryValue env d (writeEntry e (es.foldr writeEntry after))).2).1 = _
    rw [entryValue_values, List.flatMap_cons]
    cases es with
    | nil => rfl
    | cons e' es => rw [(entryValue_passes_iff e _).mpr h.1, ih h.2]

/-! ## The file -/

/-- An entry whose key is read as the id of a field that it does not name. -/
def Mistaken (env : Env F) (d : NamespaceDecl R) (e : Object × Object) : Prop :=
  ∃ k f, e.1 = .int k ∧ d.findField (idOfWire k) = some f ∧ (f.id.toNat : Int) ≠ k
    ∧ wireMatches f.type e.2 = true ∧ f.validate (valueOf env.floatOfInt f.type e.2) = true

/-- What the loader sets for an entry that is read from its own place. -/
def takenOf (env : Env F) (d : NamespaceDecl R) (e : Object × Object) : List (FieldId × Value) :=
  ((valuesOf env d e).filter fun e => e.1.validate e.2).map fun e => (e.1.id, e.2)

theorem takenOf_found {k : Int} {f : Field R} (h : d.findField (idOfWire k) = some f) (o : Object) :
    takenOf env d (.int k, o) = acceptedFor env f o := by
  unfold takenOf valuesOf acceptedFor
  dsimp only
  rw [h]
  dsimp only
  by_cases hmatch : wireMatches f.type o = true
  case neg => rw [if_neg hmatch, if_neg fun hboth => hmatch hboth.1, List.filter_nil, List.map_nil]
  case pos =>
    rw [if_pos hmatch]
    by_cases hvalid : f.validate (valueOf env.floatOfInt f.type o) = true
    case pos => rw [if_pos ⟨hmatch, hvalid⟩, List.filter_cons, if_pos hvalid, List.filter_nil, List.map_singleton]
    case neg => rw [if_neg fun hboth => hvalid hboth.2, List.filter_cons, if_neg hvalid, List.filter_nil, List.map_nil]

/-- An id that names its field is read as it was written. -/
theorem find_exact_iff {k : Int} {f : Field R} :
    (d.fields.find? fun f => (f.id.toNat : Int) = k) = some f
      ↔ d.findField (idOfWire k) = some f ∧ (f.id.toNat : Int) = k := by
  have hwire := toNat_idOfWire k
  by_cases hrange : 0 ≤ k ∧ k < 65536
  case pos =>
    have hexact : ((idOfWire k).toNat : Int) = k := hwire.trans (Int.emod_eq_of_lt hrange.1 hrange.2)
    have hsame : (fun f : Field R => decide ((f.id.toNat : Int) = k)) = fun f => decide (f.id = idOfWire k) := by
      funext f
      apply decide_eq_decide.mpr
      refine ⟨fun h => UInt16.toNat_inj.mp ?_, fun h => h ▸ hexact⟩
      omega
    unfold NamespaceDecl.findField
    rw [hsame]
    refine (and_iff_left_of_imp fun h => ?_).symm
    rw [NamespaceDecl.findField_id h, hexact]
  case neg =>
    refine iff_of_false (fun h => hrange ?_) fun h => hrange ?_
    · have hk : (f.id.toNat : Int) = k := by simpa using List.find?_some h
      have := f.id.toNat_lt
      omega
    · have := f.id.toNat_lt
      omega

theorem takenOf_of_mistaken {e : Object × Object} (h : Mistaken env d e) :
    setsOf env d e = [] ∧ (takenOf env d e).length = 1 := by
  obtain ⟨k, o⟩ := e
  obtain ⟨k, f, rfl, hfind, hother, hmatch, hvalid⟩ := h
  constructor
  · have hnone : (d.fields.find? fun f => (f.id.toNat : Int) = k) = none := by
      by_contra hsome
      obtain ⟨g, hg⟩ := Option.ne_none_iff_exists'.mp hsome
      obtain ⟨hread, hexact⟩ := find_exact_iff.mp hg
      obtain rfl := Option.some.inj (hfind.symm.trans hread)
      exact hother hexact
    unfold setsOf
    dsimp only
    rw [hnone]
    rfl
  · rw [takenOf_found hfind, acceptedFor, if_pos ⟨hmatch, hvalid⟩, List.length_singleton]

theorem takenOf_of_not_mistaken {e : Object × Object} (h : ¬ Mistaken env d e) : takenOf env d e = setsOf env d e := by
  obtain ⟨k, o⟩ := e
  cases k with
  | int k =>
    unfold setsOf
    dsimp only
    cases hexact : d.fields.find? fun f => (f.id.toNat : Int) = k with
    | some f =>
      rw [takenOf_found (find_exact_iff.mp hexact).1]
      rfl
    | none =>
      cases hfind : d.findField (idOfWire k) with
      | none =>
        unfold takenOf valuesOf
        dsimp only
        rw [hfind]
        rfl
      | some f =>
        have hother : (f.id.toNat : Int) ≠ k := fun heq => by
          rw [find_exact_iff.mpr ⟨hfind, heq⟩] at hexact
          cases hexact
        rw [takenOf_found hfind, acceptedFor, if_neg fun hboth => h ⟨k, f, rfl, hfind, hother, hboth.1, hboth.2⟩]
        rfl
  | _ => rfl

/-- Lists that go along entry by entry are the same exactly if no entry adds to one of them. -/
theorem flatMap_eq_iff {ι β : Type} {f g : ι → List β} {P : ι → Prop} (hsame : ∀ x, ¬ P x → f x = g x)
    (hmore : ∀ x, P x → g x = [] ∧ (f x).length = 1) (l : List ι) : l.flatMap f = l.flatMap g ↔ ∀ x ∈ l, ¬ P x := by
  have hle : ∀ l : List ι, (l.flatMap g).length ≤ (l.flatMap f).length := by
    intro l
    induction l with
    | nil => exact le_refl _
    | cons x l ih =>
      rw [List.flatMap_cons, List.flatMap_cons, List.length_append, List.length_append]
      by_cases hx : P x
      case pos =>
        rw [(hmore x hx).1]
        exact Nat.add_le_add (Nat.zero_le _) ih
      case neg =>
        rw [hsame x hx]
        exact Nat.add_le_add_left ih _
  induction l with
  | nil => simp
  | cons x l ih =>
    rw [List.flatMap_cons, List.flatMap_cons, List.forall_mem_cons]
    by_cases hx : P x
    case pos =>
      refine iff_of_false (fun heq => ?_) fun h => h.1 hx
      have hlength := congrArg List.length heq
      rw [List.length_append, List.length_append, (hmore x hx).1, (hmore x hx).2, List.length_nil] at hlength
      have := hle l
      omega
    case neg =>
      rw [hsame x hx]
      exact (List.append_right_inj (g x)).trans (ih.trans (and_iff_right hx).symm)

/-- Every key of the file is read from its own place, and the good entries are set and nothing else. -/
structure OnlyGood (env : Env F) (d : NamespaceDecl R) (entries : List (Object × Object)) (after : Cursor) : Prop where
  apart : ∀ s, reads (fun c _ => [c]) (workingEntry env d) entries.length (Object.entryTokens entries ++ after) s
    = positionsOf fieldPositions entries after
  sets : fileSets env d ((Object.map entries).tokens ++ after) = entries.flatMap (setsOf env d)
  result : ∀ s, unpackNamespaceWorking env d ((Object.map entries).tokens ++ after) s
    = (true, (entries.flatMap (setsOf env d)).foldl putPair s)

theorem fileSets_of_passed {entries : List (Object × Object)}
    (h : AllButLast (FieldPassed (some d)) (fun _ => True) entries) (after : Cursor) :
    fileSets env d ((Object.map entries).tokens ++ after) = entries.flatMap (takenOf env d) := by
  show ((gather (entryValue env d) entries.length (Object.entryTokens entries ++ after)).1.filter _).map _ = _
  rw [gather_entries h, List.filter_flatMap, List.map_flatMap]
  rfl

/-- A file is read entry by entry exactly if every entry but the last is passed and no key is taken for another. -/
theorem only_good_iff (env : Env F) (d : NamespaceDecl R) (entries : List (Object × Object)) (after : Cursor) :
    OnlyGood env d entries after
      ↔ AllButLast (FieldPassed (some d)) (fun _ => True) entries ∧ ∀ e ∈ entries, ¬ Mistaken env d e := by
  have hsets_iff : entries.flatMap (takenOf env d) = entries.flatMap (setsOf env d)
      ↔ ∀ e ∈ entries, ¬ Mistaken env d e :=
    flatMap_eq_iff (fun _ => takenOf_of_not_mistaken) (fun _ => takenOf_of_mistaken) entries
  constructor
  · intro h
    have hpassed : AllButLast (FieldPassed (some d)) (fun _ => True) entries := by
      by_contra hnot
      apply reads_entries_diverge (workingLoop env d) rfl hnot after (a := {}) trivial [] []
      rw [List.append_nil, List.append_nil]
      exact h.apart {}
    refine ⟨hpassed, hsets_iff.mp ?_⟩
    rw [← fileSets_of_passed hpassed after]
    exact h.sets
  · rintro ⟨hpassed, hexact⟩
    have hsets : fileSets env d ((Object.map entries).tokens ++ after) = entries.flatMap (setsOf env d) := by
      rw [fileSets_of_passed hpassed, hsets_iff.mpr hexact]
    refine ⟨fun s => reads_entries (workingLoop env d) rfl hpassed after trivial, hsets, fun s => ?_⟩
    rw [← hsets, ← unpackNamespaceWorking_sets]
    rfl

/-- Field 10 is a text, and its entry is a number of an older firmware: the number is read again as the next key. -/
theorem refused_entry_read_as_key : ¬ OnlyGood bareEnv radioDecl [(.int 10, .int 11), (.int 12, .int 5)] [] := by
  intro h
  have hset : fileSets bareEnv radioDecl ((Object.map [(.int 10, .int 11), (.int 12, .int 5)]).tokens ++ [])
      = [(11, .int 12)] := rfl
  have hshould : [(.int 10, .int 11), (.int 12, .int 5)].flatMap (setsOf bareEnv radioDecl) = [(12, .int 5)] := rfl
  rw [h.sets, hshould] at hset
  exact absurd hset (by decide)

end MicroReticulum.Provisioning
