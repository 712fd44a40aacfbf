import MicroReticulum.Announce.SlotJob

/-!
# The cull of the announce table

`cullOldest` erases the oldest entries until the table fits the limit of the path table, one of them at least.
So it leaves the table without its oldest entries (`cullAnnounceTable_eq`), as many as the limit of the path table
asks for and not that of the announce table.

That the entries which stay are the right ones to keep is not said: age is all the cull
looks at.
-/

namespace MicroReticulum.Announce

open MicroReticulum Packet Link Library Transport

variable {env : Environment} {s : TransportState} {table table' : Table AnnounceEntry} {d : Address}

/-! ## By age -/

/-- The entries of a table, the oldest first. -/
def byAge (table : Table AnnounceEntry) : List ((_ : Address) × AnnounceEntry) :=
  table.entries.mergeSort AnnounceEntry.older

/-- Entries are ordered by their time, and by destination where the times are equal. -/
theorem older_iff (a b : (_ : Address) × AnnounceEntry) : AnnounceEntry.older a b = true ↔
    a.2.timestamp < b.2.timestamp ∨ a.2.timestamp = b.2.timestamp ∧ a.1.toList ≤ b.1.toList := by
  simp only [AnnounceEntry.older, Bool.or_eq_true, Bool.and_eq_true, decide_eq_true_eq]

theorem older_trans (a b c : (_ : Address) × AnnounceEntry) (hab : AnnounceEntry.older a b = true)
    (hbc : AnnounceEntry.older b c = true) : AnnounceEntry.older a c = true := by
  rw [older_iff] at *
  rcases hab with hab | ⟨hab, habKey⟩
  · rcases hbc with hbc | ⟨hbc, -⟩
    · exact .inl (hab.trans hbc)
    · exact .inl (hbc ▸ hab)
  · rcases hbc with hbc | ⟨hbc, hbcKey⟩
    · exact .inl (hab ▸ hbc)
    · exact .inr ⟨hab.trans hbc, List.le_trans habKey hbcKey⟩

theorem older_total (a b : (_ : Address) × AnnounceEntry) :
    (AnnounceEntry.older a b || AnnounceEntry.older b a) = true := by
  rw [Bool.or_eq_true, older_iff, older_iff]
  rcases lt_trichotomy a.2.timestamp b.2.timestamp with hlt | heq | hgt
  · exact .inl (.inl hlt)
  · rcases List.le_total a.1.toList b.1.toList with hle | hle
    · exact .inl (.inr ⟨heq, hle⟩)
    · exact .inr (.inr ⟨heq.symm, hle⟩)
  · exact .inr (.inl hgt)

/-- Sorting by age loses no entry and makes none. -/
theorem byAge_perm (table : Table AnnounceEntry) : (byAge table).Perm table.entries := List.mergeSort_perm _ _

/-- The sorted list is as long as the table. -/
theorem byAge_length (table : Table AnnounceEntry) : (byAge table).length = table.entries.length :=
  (byAge_perm table).length_eq

theorem byAge_pairwise (table : Table AnnounceEntry) :
    (byAge table).Pairwise fun a b => AnnounceEntry.older a b = true :=
  List.pairwise_mergeSort older_trans older_total _

theorem byAge_keys_nodup (table : Table AnnounceEntry) : ((byAge table).map fun e => e.1).Nodup :=
  ((byAge_perm table).map _).nodup_iff.mpr table.keys_nodup

/-- It has exactly the entries of the table. -/
theorem mem_byAge {e : AnnounceEntry} : ⟨d, e⟩ ∈ byAge table ↔ table.lookup d = some e := by
  rw [(byAge_perm table).mem_iff]
  exact AList.mem_lookup_iff.symm

/-! ## Without the oldest -/

/-- A table without its `k` oldest entries. -/
def withoutOldest (k : Nat) (table : Table AnnounceEntry) : Table AnnounceEntry :=
  table.eraseAll (((byAge table).take k).map fun e => e.1)

/-- What is left is what comes behind in the order of age. -/
theorem lookup_withoutOldest {k : Nat} {e : AnnounceEntry} :
    (withoutOldest k table).lookup d = some e ↔ ⟨d, e⟩ ∈ (byAge table).drop k := by
  have hnodup := byAge_keys_nodup table
  have hsplit := List.take_append_drop k (byAge table)
  rw [← hsplit, List.map_append] at hnodup
  have hdisjoint := List.disjoint_of_nodup_append hnodup
  unfold withoutOldest
  constructor
  · intro h
    have hmem := mem_byAge.mpr (lookup_of_eraseAll h)
    rw [← hsplit, List.mem_append] at hmem
    rcases hmem with hold | hnew
    · have hkept := ((mem_eraseAll _ table d).mp (AList.lookup_isSome.mp (by rw [h]; rfl))).2
      exact absurd (List.mem_map_of_mem hold) hkept
    · exact hnew
  · intro h
    have hkept : d ∉ ((byAge table).take k).map fun e => e.1 := fun hold =>
      hdisjoint hold (List.mem_map_of_mem (f := fun e : (_ : Address) × AnnounceEntry => e.1) h)
    rw [lookup_eraseAll hkept]
    exact mem_byAge.mp (List.mem_of_mem_drop h)

/-- A table has as many keys as entries. -/
theorem length_keys {V : Type} (table : Table V) : table.keys.length = table.entries.length := by
  unfold AList.keys List.keys
  rw [List.length_map]

/-- Erasing distinct keys of a table takes that many entries away. -/
theorem length_eraseAll {V : Type} {ks : List Address} (hnodup : ks.Nodup) {table : Table V} (hks : ∀ k ∈ ks, k ∈ table) :
    (table.eraseAll ks).entries.length = table.entries.length - ks.length := by
  induction ks generalizing table with
  | nil => rfl
  | cons k ks ih =>
    rw [List.nodup_cons] at hnodup
    have hk : k ∈ table := hks k List.mem_cons_self
    have hrest : ∀ k' ∈ ks, k' ∈ table.erase k := by
      intro k' hk'
      refine AList.mem_erase.mpr ⟨fun heq => hnodup.1 (heq ▸ hk'), hks k' (List.mem_cons_of_mem k hk')⟩
    have herase : (table.erase k).entries.length = table.entries.length - 1 := by
      rw [← length_keys, ← length_keys, AList.keys_erase, List.length_erase_of_mem (AList.mem_keys.mp hk)]
    have hcons : table.eraseAll (k :: ks) = Table.eraseAll (table.erase k) ks := rfl
    rw [hcons, ih hnodup.2 hrest, herase, List.length_cons]
    omega

/-- Without its `k` oldest entries a table has `k` fewer. -/
theorem withoutOldest_length {k : Nat} (hk : k ≤ table.entries.length) :
    (withoutOldest k table).entries.length = table.entries.length - k := by
  have hnodup : (((byAge table).take k).map fun e => e.1).Nodup :=
    (byAge_keys_nodup table).sublist ((List.take_sublist k _).map _)
  unfold withoutOldest
  rw [length_eraseAll hnodup, List.length_map, List.length_take, byAge_length, Nat.min_eq_left hk]
  intro a ha
  obtain ⟨e, he, rfl⟩ := List.mem_map.mp ha
  have hmem : table.lookup e.1 = some e.2 := mem_byAge.mp (List.mem_of_mem_take he)
  exact AList.lookup_isSome.mp (by rw [hmem]; rfl)

/-- What was removed is not younger than what is left. -/
theorem withoutOldest_older {k : Nat} {d' : Address} {e e' : AnnounceEntry} (he : table.lookup d = some e)
    (hgone : d ∉ withoutOldest k table) (hleft : (withoutOldest k table).lookup d' = some e') :
    e.timestamp ≤ e'.timestamp := by
  have hmem := mem_byAge.mpr he
  rw [← List.take_append_drop k (byAge table), List.mem_append] at hmem
  rcases hmem with hold | hnew
  · have hpairwise := byAge_pairwise table
    rw [← List.take_append_drop k (byAge table), List.pairwise_append] at hpairwise
    have holder := (older_iff _ _).mp (hpairwise.2.2 _ hold _ (lookup_withoutOldest.mp hleft))
    rcases holder with hlt | ⟨heq, -⟩
    · exact hlt.le
    · exact heq.le
  · have hlookup := lookup_withoutOldest.mpr hnew
    exact absurd (AList.lookup_isSome.mp (by rw [hlookup]; rfl)) hgone

/-! ## The cull -/

/-- How many entries the cull removes from a table of this length. -/
def removals (limit length : Nat) : Nat := max 1 (length - limit)

/-- The loop that culls erases the first keys, as many as are too many. -/
theorem cullOldest_eq (limit : Nat) {ks : List Address} (hnodup : ks.Nodup) {table : Table AnnounceEntry}
    (hks : ∀ k ∈ ks, k ∈ table) :
    cullOldest limit ks table = table.eraseAll (ks.take (removals limit table.entries.length)) := by
  induction ks generalizing table with
  | nil =>
    rw [List.take_nil]
    rfl
  | cons k ks ih =>
    rw [List.nodup_cons] at hnodup
    have hk : k ∈ table := hks k List.mem_cons_self
    have hrest : ∀ k' ∈ ks, k' ∈ table.erase k := by
      intro k' hk'
      exact AList.mem_erase.mpr ⟨fun heq => hnodup.1 (heq ▸ hk'), hks k' (List.mem_cons_of_mem k hk')⟩
    have herase : (table.erase k).entries.length = table.entries.length - 1 := by
      rw [← length_keys, ← length_keys, AList.keys_erase, List.length_erase_of_mem (AList.mem_keys.mp hk)]
    unfold cullOldest
    dsimp only
    split
    case isTrue hfits =>
      have hone : removals limit table.entries.length = 1 := by
        unfold removals
        omega
      rw [hone]
      rfl
    case isFalse hover =>
      have hmore : removals limit table.entries.length = removals limit (table.erase k).entries.length + 1 := by
        unfold removals
        omega
      rw [hmore, List.take_succ_cons, ih hnodup.2 hrest]
      rfl

/-- A table over its limit loses its oldest entries. -/
theorem cullAnnounceTable_eq (hover : env.announceTableMaxsize < s.announceTable.entries.length) :
    (cullAnnounceTable env s).announceTable
      = withoutOldest (removals env.pathTableMaxsize s.announceTable.entries.length) s.announceTable := by
  have hmem : ∀ k ∈ (byAge s.announceTable).map (fun e => e.1), k ∈ s.announceTable := by
    intro k hk
    obtain ⟨e, he, rfl⟩ := List.mem_map.mp hk
    have hlookup : s.announceTable.lookup e.1 = some e.2 := mem_byAge.mp he
    exact AList.lookup_isSome.mp (by rw [hlookup]; rfl)
  unfold cullAnnounceTable
  rw [if_pos hover]
  unfold withoutOldest
  rw [List.map_take]
  exact cullOldest_eq _ (byAge_keys_nodup _) hmem

theorem cullAnnounceTable_of_fits (hfits : s.announceTable.entries.length ≤ env.announceTableMaxsize) :
    cullAnnounceTable env s = s := if_neg (Nat.not_lt.mpr hfits)

/-- The table is within its limit, and has lost only its surplus, the oldest entries of all. -/
structure CulledExactly (limit : Nat) (table table' : Table AnnounceEntry) : Prop where
  size : table'.entries.length ≤ limit
  surplus : table.entries.length - table'.entries.length = table.entries.length - limit
  kept : ∀ d e, table'.lookup d = some e → table.lookup d = some e
  oldest : ∀ d e d' e', table.lookup d = some e → d ∉ table' → table'.lookup d' = some e' →
    e.timestamp ≤ e'.timestamp
  within : table.entries.length ≤ limit → table' = table

/-- With these two limits the cull removes the surplus. -/
def LimitsAgree (env : Environment) (length : Nat) : Prop :=
  length ≤ env.announceTableMaxsize ∨ env.pathTableMaxsize = env.announceTableMaxsize
    ∨ length = env.announceTableMaxsize + 1 ∧ env.announceTableMaxsize ≤ env.pathTableMaxsize

/-- The cull is exact, whatever is in the table, if and only if the table is within its limit, or the limits of the
announce table and of the path table are the same, or there is one entry too many and the path table is not the
smaller one. An entry more in a full table costs one exactly if the path table is not the smaller one. -/
theorem culledExactly_iff (env : Environment) (s : TransportState) :
    (CulledExactly env.announceTableMaxsize s.announceTable (cullAnnounceTable env s).announceTable
        ↔ LimitsAgree env s.announceTable.entries.length)
      ∧ (s.announceTable.entries.length = env.announceTableMaxsize → ∀ d e, d ∉ s.announceTable →
        ((addAnnounceEntry env d e s).announceTable.entries.length = env.announceTableMaxsize
          ↔ env.announceTableMaxsize ≤ env.pathTableMaxsize)) := by
  have hremoved : removals env.pathTableMaxsize s.announceTable.entries.length ≤ s.announceTable.entries.length
      ∨ s.announceTable.entries.length = 0 := by
    unfold removals
    omega
  constructor
  · unfold LimitsAgree
    by_cases hfits : s.announceTable.entries.length ≤ env.announceTableMaxsize
    case pos =>
      rw [cullAnnounceTable_of_fits hfits]
      refine ⟨fun _ => .inl hfits, fun _ => ⟨hfits, by omega, fun _ _ => id, fun d e _ _ he hgone _ => ?_, fun _ => rfl⟩⟩
      exact absurd (AList.lookup_isSome.mp (by rw [he]; rfl)) hgone
    case neg =>
      have hover := Nat.lt_of_not_le hfits
      have hlength := withoutOldest_length (hremoved.resolve_right (by omega))
      rw [cullAnnounceTable_eq hover]
      constructor
      · intro h
        have hsize := h.size
        have hsurplus := h.surplus
        rw [hlength] at hsize hsurplus
        unfold removals at *
        omega
      · intro h
        have hcount : removals env.pathTableMaxsize s.announceTable.entries.length
            = s.announceTable.entries.length - env.announceTableMaxsize := by
          unfold removals
          omega
        refine ⟨?_, ?_, fun d e he => ?_, fun d e d' e' he hgone hleft => withoutOldest_older he hgone hleft,
          fun hwithin => absurd hwithin hfits⟩
        · rw [hlength, hcount]
          omega
        · rw [hlength, hcount]
          omega
        · exact mem_byAge.mp (List.mem_of_mem_drop (lookup_withoutOldest.mp he))
  · intro hfull d e hnew
    obtain ⟨t, ht⟩ : ∃ t, t = ({ s with announceTable := s.announceTable.emplace d e } : TransportState) := ⟨_, rfl⟩
    have hone : t.announceTable.entries.length = env.announceTableMaxsize + 1 := by
      rw [ht]
      unfold Table.emplace
      rw [if_neg hnew, ← length_keys, AList.keys_insert, List.length_cons,
        List.erase_of_not_mem (fun hmem => hnew (AList.mem_keys.mpr hmem)), length_keys, hfull]
    have hcount : removals env.pathTableMaxsize t.announceTable.entries.length ≤ t.announceTable.entries.length := by
      unfold removals
      omega
    unfold addAnnounceEntry
    rw [← ht, cullAnnounceTable_eq (by omega), withoutOldest_length hcount, hone]
    unfold removals
    omega

namespace Sample

/-- An announce that waits. -/
def waitingEntry : AnnounceEntry := announceEntry trusting (telling 1 []).arrived false

/-- Announces of three destinations wait. -/
def threeWaiting : TransportState :=
  { announceTable := (((∅ : Table AnnounceEntry).insert (.fill 1) waitingEntry).insert (.fill 2) waitingEntry).insert
      (.fill 3) waitingEntry }

/-- Two announces may wait, and one path may be known. -/
def onePath : Environment := { trusting with announceTableMaxsize := 2, pathTableMaxsize := 1 }

end Sample

/-- A fourth announce in a table for three. -/
theorem fourth_announce_costs_one :
    (addAnnounceEntry { Sample.trusting with announceTableMaxsize := 3 } (.fill 4) Sample.waitingEntry
      Sample.threeWaiting).announceTable.entries.length = 3 := by
  obtain ⟨-, hfull⟩ := culledExactly_iff { Sample.trusting with announceTableMaxsize := 3 } Sample.threeWaiting
  exact (hfull (by decide +kernel) (.fill 4) Sample.waitingEntry (by decide +kernel)).mpr (by decide)

/-- With a smaller path table one announce too many costs two. -/
theorem small_path_table_costs_announces : ¬ ∀ (env : Environment) (s : TransportState),
    CulledExactly env.announceTableMaxsize s.announceTable (cullAnnounceTable env s).announceTable := by
  intro h
  have hsurplus := (h Sample.onePath Sample.threeWaiting).surplus
  have hthree : Sample.threeWaiting.announceTable.entries.length = 3 := by decide +kernel
  rw [cullAnnounceTable_eq (by rw [hthree]; decide), withoutOldest_length (by rw [hthree]; decide), hthree] at hsurplus
  revert hsurplus
  decide

end MicroReticulum.Announce
