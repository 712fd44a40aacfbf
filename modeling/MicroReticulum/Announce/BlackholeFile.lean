import MicroReticulum.Announce.BlackholeRuns

/-!
# The blackhole list survives a restart

The file holds a record for each entry the node made itself. `loadBlackholes_records` reads such records back one by
one, and the purge that follows a load does not touch the list.

The bytes of the file are those of a `MsgPack` library that is taken to read back what it
wrote; a file damaged on the disk is not followed.
-/

namespace MicroReticulum.Announce

open MicroReticulum Packet Link Library Transport

variable {env : Environment} {s t : TransportState} {now : ℚ} {source : Bytes}

/-- An entry of the list with its key. -/
abbrev Blackholed : Type := (_ : Bytes) × BlackholeEntry

/-- The record of an entry. -/
def blackholeRecord (e : Blackholed) : List Library.Token :=
  [.bin e.1, .arr 3, .bin e.2.source, .float e.2.expires, .str e.2.reason]

/-- The entries of the source that a load at `now` takes. -/
def Lasting (now : ℚ) (source : Bytes) (e : BlackholeEntry) : Prop := e.source = source ∧ e.expired now = false

instance (now : ℚ) (source : Bytes) (e : BlackholeEntry) : Decidable (Lasting now source e) := by
  unfold Lasting
  infer_instance

/-- What the loader makes of a record. -/
def take (now : ℚ) (list : Blackholes) (e : Blackholed) : Blackholes :=
  if e.2.expired now then list else list.emplace e.1 e.2

theorem loadBlackholes_record (floatOfInt : Int → Double) (n : ℕ) (e : Blackholed) (rest : List Library.Token)
    (list : Blackholes) :
    loadBlackholes now floatOfInt (n + 1) (blackholeRecord e ++ rest) list
      = loadBlackholes now floatOfInt n rest (take now list e) := rfl

theorem mem_take {list : Blackholes} {e : Blackholed} (h : e.1 ∉ list) (x : Blackholed) :
    x ∈ (take now list e).entries ↔ x ∈ list.entries ∨ x = e ∧ e.2.expired now = false := by
  unfold take Blackholes.emplace
  rw [if_neg h]
  cases e.2.expired now with
  | true => simp
  | false =>
    rw [if_neg Bool.false_ne_true, AList.entries_insert_of_notMem h, List.mem_cons, or_comm]
    simp

theorem key_mem_take {list : Blackholes} {e : Blackholed} {k : Bytes} (h : k ∈ take now list e) :
    k = e.1 ∨ k ∈ list := by
  unfold take Blackholes.emplace at h
  split at h
  · exact .inr h
  · split at h
    · exact .inr h
    · exact (AList.mem_insert list).mp h

/-- The records of a source are read to the end, and those that last are in the list. -/
theorem loadBlackholes_records (floatOfInt : Int → Double) (es : List Blackholed) (hes : (es.map Sigma.fst).Nodup)
    (list : Blackholes) (hnew : ∀ e ∈ es, e.1 ∉ list) :
    ∃ loaded, loadBlackholes now floatOfInt (es.countP fun e => e.2.source = source)
        (es.flatMap fun e => if e.2.source ≠ source then [] else blackholeRecord e) list = (loaded, true)
      ∧ ∀ x, x ∈ loaded.entries ↔ x ∈ list.entries ∨ x ∈ es ∧ Lasting now source x.2 := by
  induction es generalizing list with
  | nil =>
    refine ⟨list, rfl, fun x => ?_⟩
    simp only [List.not_mem_nil, false_and, or_false]
  | cons e es ih =>
    obtain ⟨hfirst, hrest⟩ := List.nodup_cons.mp hes
    have hnew' : ∀ x ∈ es, x.1 ∉ list := fun x hx => hnew x (List.mem_cons_of_mem _ hx)
    by_cases hown : e.2.source = source
    case neg =>
      obtain ⟨loaded, hload, hmem⟩ := ih hrest list hnew'
      refine ⟨loaded, ?_, fun x => ?_⟩
      · rw [List.countP_cons_of_neg (by simpa using hown), List.flatMap_cons, if_pos hown]
        exact hload
      · rw [hmem]
        apply or_congr_right
        constructor
        · rintro ⟨hx, hlasts⟩
          exact ⟨List.mem_cons_of_mem _ hx, hlasts⟩
        · rintro ⟨hx, hlasts⟩
          rcases List.mem_cons.mp hx with rfl | hx
          · exact absurd hlasts.1 hown
          · exact ⟨hx, hlasts⟩
    case pos =>
      have hfresh := hnew e List.mem_cons_self
      have hnew'' : ∀ x ∈ es, x.1 ∉ take now list e := by
        intro x hx htaken
        rcases key_mem_take htaken with hsame | hin
        · exact hfirst (hsame ▸ List.mem_map_of_mem hx)
        · exact hnew' x hx hin
      obtain ⟨loaded, hload, hmem⟩ := ih hrest (take now list e) hnew''
      refine ⟨loaded, ?_, fun x => ?_⟩
      · rw [List.countP_cons_of_pos (by simpa using hown), List.flatMap_cons, if_neg (not_not.mpr hown),
          loadBlackholes_record]
        exact hload
      · rw [hmem, mem_take hfresh]
        constructor
        · rintro ((hx | ⟨rfl, hlasts⟩) | ⟨hx, hlasts⟩)
          · exact .inl hx
          · exact .inr ⟨List.mem_cons_self, hown, hlasts⟩
          · exact .inr ⟨List.mem_cons_of_mem _ hx, hlasts⟩
        · rintro (hx | ⟨hx, hlasts⟩)
          · exact .inl (.inl hx)
          · rcases List.mem_cons.mp hx with rfl | hx
            · exact .inl (.inr ⟨rfl, hlasts.2⟩)
            · exact .inr ⟨hx, hlasts⟩

/-! ## The purge -/

/-- The list is as it was. -/
def SameList (s t : TransportState) : Prop := t.blackholedIdentities = s.blackholedIdentities

theorem SameList.refl (s : TransportState) : SameList s s := rfl

theorem SameList.trans (s t u : TransportState) (h : SameList s t) (h' : SameList t u) : SameList s u := Eq.trans h' h

theorem blackholedPaths_list (ds : List Address) : Prog.Keeps SameList (blackholedPaths env ds) := by
  induction ds with
  | nil => exact .pure SameList.refl _
  | cons d ds ih =>
    have hrecall : Prog.Keeps SameList (identityRecall env d) :=
      identityRecall_keeps SameList.refl SameList.trans (fun _ _ => rfl) d
    apply Prog.Keeps.bind SameList.trans
    · exact .catching SameList.trans (.bind SameList.trans hrecall fun _ => .pure SameList.refl _) fun _ =>
        .pure SameList.refl _
    intro associated
    cases associated with
    | none => exact .pure SameList.refl _
    | some identity =>
      exact .bind SameList.trans (.get SameList.refl) fun _ => .bind SameList.trans ih fun _ => .pure SameList.refl _

theorem removeBlackholedPaths_list : Prog.Keeps SameList (removeBlackholedPaths env) := by
  apply Prog.Keeps.bind SameList.trans (.get SameList.refl)
  intro s
  apply Prog.Keeps.when SameList.refl
  intro _
  exact .bind SameList.trans (blackholedPaths_list _) fun _ => .modify fun _ => rfl

theorem reloadBlackhole_list (floatOfInt : Int → Double) (file : List Library.Token) (s : TransportState) :
    (reloadBlackhole env floatOfInt file s).2.blackholedIdentities
      = (loadFile env.now floatOfInt file s.blackholedIdentities).1 := by
  unfold reloadBlackhole
  rw [Prog.get_bind_run, Prog.modify_bind_run]
  exact Prog.Keeps.when SameList.refl (fun _ => removeBlackholedPaths_list)
    { s with blackholedIdentities := (loadFile env.now floatOfInt file s.blackholedIdentities).1 }

/-- The blackhole list survives a restart: what a node with the same identity loads into an empty list are the
entries that were its own and have not expired. -/
theorem blackhole_list_survives (env : Environment) (floatOfInt : Int → Double) (s t : TransportState)
    (hidentity : t.identity = s.identity) (hempty : t.blackholedIdentities = ∅) (identityHash : Bytes) :
    (reloadBlackhole env floatOfInt (persistBlackhole s) t).2.blackholedIdentities.lookup identityHash
      = (s.blackholedIdentities.lookup identityHash).filter fun e => decide (Lasting env.now (ownSource t) e) := by
  obtain ⟨loaded, hload, hmem⟩ := @loadBlackholes_records env.now (ownSource s) floatOfInt
    s.blackholedIdentities.entries s.blackholedIdentities.nodupKeys ∅ fun _ _ => AList.notMem_empty _
  have hfile : loadFile env.now floatOfInt (persistBlackhole s) ∅ = (loaded, true) := hload
  have hsource : ownSource t = ownSource s := by
    unfold ownSource
    rw [hidentity]
  rw [reloadBlackhole_list, hempty, hfile, hsource]
  have hlookup : ∀ e, loaded.lookup identityHash = some e
      ↔ s.blackholedIdentities.lookup identityHash = some e ∧ Lasting env.now (ownSource s) e := by
    intro e
    rw [← Option.mem_def, ← Option.mem_def, AList.mem_lookup_iff, AList.mem_lookup_iff, hmem]
    exact or_iff_right List.not_mem_nil
  ext e
  rw [hlookup, Option.filter_eq_some_iff, decide_eq_true_iff]

namespace Sample

/-- An entry of one's own that stays for ever, and one of somebody else. -/
def listing : TransportState where
  identity := some (.fill 3)
  blackholedIdentities := (AList.insert [5] ⟨[7], .fin 0, []⟩ ∅).insert [6]
    ⟨(List.Vector.toList (.fill 3 : Address)), .fin 0, [110, 111]⟩

end Sample

/-- The entry of one's own is there again. -/
theorem own_entry_survives :
    ((reloadBlackhole Sample.routing (fun n => .fin n) (persistBlackhole Sample.listing)
        { identity := some (.fill 3) }).2.blackholedIdentities.lookup [6]).map BlackholeEntry.reason
      = some [110, 111] := by
  rw [blackhole_list_survives Sample.routing _ Sample.listing { identity := some (.fill 3) } rfl rfl [6]]
  decide +kernel

end MicroReticulum.Announce
