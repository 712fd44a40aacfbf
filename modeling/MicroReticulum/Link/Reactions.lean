import MicroReticulum.Link.Records

/-!
# Reactions

What an endpoint does about one resource under way changes its record as an `Incident` says, and spares the
others. `handle_reacts` says which incidents an input brings about (`Arises`), and `run_record` is the rule for
runs: what every reaction keeps, a run keeps.
-/

namespace MicroReticulum.Link

open MicroReticulum Packet Library Resource

variable {env : Env} {α : Type} {s t u : Endpoint} {r : Nat}

section Reactions

variable (env)

/-- The records there react to one incident at most, and aside from that nothing changes. -/
structure Reacts (may : Nat → Incident → Prop) (s t : Endpoint) : Prop where
  created : s.created ≤ t.created
  old : ∀ r < s.created, Aside (s.resources r) (t.resources r)
    ∨ ∃ i, may r i ∧ Reaction env i (s.resources r) (t.resources r)
  new : ∀ r, s.created ≤ r → r < t.created → Born env (t.resources r)

variable {env}

/-- What spares all records is a reaction to anything. -/
theorem Spares.reacts (h : Spares env s t) (may : Nat → Incident → Prop) : Reacts env may s t :=
  ⟨h.created, fun r hr => .inl (h.old r hr), h.new⟩

theorem Reacts.mono {may may' : Nat → Incident → Prop} (h : Reacts env may s t) (himp : ∀ r i, may r i → may' r i) :
    Reacts env may' s t :=
  ⟨h.created, fun r hr => (h.old r hr).imp_right fun ⟨i, hi, hreact⟩ => ⟨i, himp r i hi, hreact⟩, h.new⟩

/-- From a given state it is enough that the branch that is taken is a reaction. -/
theorem Reacts.ite_at {may : Nat → Incident → Prop} {c : Prop} [Decidable c] {m m' : Prog String Endpoint α}
    (h : c → Reacts env may s (m s).2) (h' : ¬ c → Reacts env may s (m' s).2) :
    Reacts env may s ((if c then m else m') s).2 := by
  split
  case isTrue hc => exact h hc
  case isFalse hc => exact h' hc

/-- Where no record reacts to both of two programs, what they do is one reaction of each. -/
theorem Reacts.trans {may may' : Nat → Incident → Prop} (h : Reacts env may s t) (h' : Reacts env may' t u)
    (hold : ∀ r i, may' r i → r < s.created) (hapart : ∀ r i i', may r i → may' r i' → False) :
    Reacts env (fun r i => may r i ∨ may' r i) s u := by
  refine ⟨Nat.le_trans h.created h'.created, fun r hr => ?_, fun r hr hlt => ?_⟩
  · have hr' := Nat.lt_of_lt_of_le hr h.created
    obtain hbefore | ⟨i, hi, hbefore⟩ := h.old r hr <;> obtain hafter | ⟨i', hi', hafter⟩ := h'.old r hr'
    · exact .inl (hbefore.trans hafter)
    · exact .inr ⟨i', .inr hi', hafter.after hbefore⟩
    · exact .inr ⟨i, .inl hi, hbefore.before hafter⟩
    · exact (hapart r i i' hi hi').elim
  · by_cases hmade : r < t.created
    · obtain haside | ⟨i, hi, -⟩ := h'.old r hmade
      · exact (h.new r hr hmade).aside haside
      · exact absurd (hold r i hi) (Nat.not_lt.mpr hr)
    · exact h'.new r (Nat.not_lt.mp hmade) hlt

/-- What may happen to one record. -/
def Only (r : Nat) (i : Incident) (q : Nat) (j : Incident) : Prop := q = r ∧ j = i

/-- One record changes as an incident says, between programs that spare the records. -/
theorem Reacts.one {i : Incident} {f : ResourceData → ResourceData} {v : Endpoint} (hr : r < s.created)
    (hbefore : Spares env s t) (hafter : Spares env (t.withResource r f) v)
    (hreact : ∀ d₁ d', Aside (s.resources r) d₁ → Aside (f d₁) d' → Reaction env i (s.resources r) d') :
    Reacts env (Only r i) s v := by
  refine ⟨Nat.le_trans hbefore.created hafter.created, fun q hq => ?_, fun q hq hlt => ?_⟩
  · have hq' := Nat.lt_of_lt_of_le hq hbefore.created
    have haside := hafter.old q hq'
    by_cases hqr : q = r
    · subst hqr
      rw [Endpoint.withResource_self] at haside
      exact .inr ⟨i, ⟨rfl, rfl⟩, hreact _ _ (hbefore.old q hq) haside⟩
    · rw [Endpoint.withResource_of_ne hqr] at haside
      exact .inl ((hbefore.old q hq).trans haside)
  · by_cases hmade : q < t.created
    · have hne : q ≠ r := by omega
      have haside := hafter.old q hmade
      rw [Endpoint.withResource_of_ne hne] at haside
      exact (hbefore.new q hq hmade).aside haside
    · exact hafter.new q (Nat.not_lt.mp hmade) hlt

/-- The receiver's resource takes in a part as its incident says, and nothing happens to another resource. -/
theorem receivePart_reacts (packet : Packet) (rates : Rates) (hr : r < s.created)
    (hside : (s.resources r).initiator = false) :
    Reacts env (Only r (.part packet.data rates)) s (receivePart env r packet rates s).2 := by
  unfold receivePart
  rw [Prog.call_state, Prog.get_bind_run]
  by_cases hlock : (s.resources r).receiveLock = true
  case pos =>
    rw [Prog.when_of hlock]
    exact (Spares.refl s).reacts _
  rw [Prog.when_of_not hlock, Prog.pure_bind_run, Prog.modify_bind_run]
  obtain ⟨f, hf⟩ : ∃ f : ResourceData → ResourceData, f = fun d => if rates.fastFirst then fastRound d else d :=
    ⟨_, rfl⟩
  obtain ⟨t, ht⟩ : ∃ t, t = s.withResource r fun d => { d with receiveLock := true, retriesLeft := maxRetries } :=
    ⟨_, rfl⟩
  have hlocked : Spares env s t := ht ▸ .withResource ⟨_, _, _, _, _, _, id, rfl⟩
  have hstatus : (f (t.resources r)).status = (s.resources r).status := by
    rw [hf, ht, Endpoint.withResource_self]
    dsimp only
    unfold fastRound
    split
    · split <;> rfl
    · rfl
  have hfirst : (s.withResource r fun d =>
      let d := { d with receiveLock := true, retriesLeft := maxRetries }
      if rates.fastFirst then fastRound d else d) = t.withResource r f := by
    rw [ht, hf, withResource_twice]
  rw [hfirst]
  have hreact : ∀ {v : Endpoint}, Spares env (t.withResource r (filedPart env packet.data rates)) v →
      Reacts env (Only r (.part packet.data rates)) s v := fun hafter =>
    .one hr hlocked hafter fun d₁ d' hbefore hafter => .part hbefore hside hafter
  have hunlock : ∀ u : Endpoint, Spares env u (u.withResource r fun d => { d with receiveLock := false }) := fun u =>
    .withResource ⟨_, _, _, _, _, _, id, rfl⟩
  by_cases hfailed : (s.resources r).status = .failed
  · rw [Prog.when_of hfailed]
    have hfiled : t.withResource r (filedPart env packet.data rates) = t.withResource r f := by
      unfold Endpoint.withResource filedPart
      rw [hf] at hstatus ⊢
      dsimp only at hstatus ⊢
      rw [if_pos (hstatus.trans hfailed)]
    exact hreact (hfiled ▸ hunlock _)
  rw [Prog.when_of_not hfailed, Prog.pure_bind_run, Prog.modify_bind_run, withResource_twice, Prog.get_bind_run]
  obtain ⟨d, hd⟩ : ∃ d, d = filePart env packet.data (f (t.resources r)) := ⟨_, rfl⟩
  rw [Endpoint.withResource_self, ← hd]
  have hfiled : t.withResource r (filedPart env packet.data rates)
      = t.withResource r fun _ => afterFiling rates d := by
    unfold Endpoint.withResource filedPart
    rw [hf] at hstatus hd
    dsimp only at hstatus hd ⊢
    rw [if_neg fun h => hfailed (hstatus.symm.trans h), ← hd]
  rw [hfiled] at hreact
  apply hreact
  have hat : t.withResource r (fun d => filePart env packet.data (f d)) = t.withResource r fun _ => d := by
    unfold Endpoint.withResource
    rw [hd]
  rw [hat]
  split
  case isTrue hlast =>
    rw [Prog.modify_bind_run, withResource_twice]
    have hgoes : afterFiling rates d = { d with assemblyLock := true } := if_pos hlast
    rw [hgoes]
    exact (sparing env).after (assemble_spares env r _) fun _ => .modify hunlock
  case isFalse hlast =>
    by_cases hdone : d.outstandingParts = 0
    · have hgoes : afterFiling rates d = nextRequest (afterRequest rates d) := by
        unfold afterFiling
        rw [if_neg hlast, if_pos hdone]
      rw [Prog.when_of hdone, hgoes]
      refine (sparing env).after ?_ fun _ => .modify hunlock
      rw [Prog.modify_bind_run, withResource_twice]
      have hnext := requestNext_spares env r (t.withResource r fun _ => afterRequest rates d)
      rwa [withResource_twice] at hnext
    · have hgoes : afterFiling rates d = d := by
        unfold afterFiling
        rw [if_neg hlast, if_neg hdone]
      rw [Prog.when_of_not hdone, hgoes]
      exact hunlock _

/-- The receiver's resource takes in a segment of the hashmap as its incident says. -/
theorem hashmapUpdate_reacts (segment : UInt16) (hashmap : Bytes) (hr : r < s.created)
    (hside : (s.resources r).initiator = false) (h : Spares env s t) :
    Reacts env (Only r (.hashmap segment hashmap)) s (hashmapUpdate env r segment hashmap t).2 :=
  .one hr h (hashmapUpdate_spares env r segment hashmap t) fun _ _ hbefore hafter => .hashmap hbefore hside hafter

/-- A hashmap update packet is one segment of the hashmap for one resource, be it what it may. -/
theorem hashmapUpdatePacket_reacts (plaintext : Bytes) (hr : r < s.created)
    (hside : (s.resources r).initiator = false) :
    ∃ segment hashmap, Reacts env (Only r (.hashmap segment hashmap)) s (hashmapUpdatePacket env r plaintext s).2 := by
  have hspared : ∀ {t}, Spares env s t →
      ∃ segment hashmap, Reacts env (Only r (.hashmap segment hashmap)) s t := fun h => ⟨0, [], h.reacts _⟩
  unfold hashmapUpdatePacket
  rw [Prog.get_bind_run]
  unfold Prog.when
  split
  case isFalse => exact hspared (.refl s)
  rw [Prog.modify_bind_run]
  have hretries : Spares env s (s.withResource r fun d => { d with retriesLeft := maxRetries }) :=
    .withResource ⟨_, _, _, _, _, _, id, rfl⟩
  split
  case isFalse => exact hspared hretries
  generalize env.decode (plaintext.mid hashBytes) = objects
  cases objects with
  | nil => exact hspared hretries
  | cons token rest =>
    cases token with
    | arr n =>
      by_cases hpair : 2 ≤ n
      · dsimp only
        rw [if_pos hpair]
        exact ⟨_, _, hashmapUpdate_reacts _ _ hr hside hretries⟩
      · dsimp only
        rw [if_neg hpair]
        exact hspared hretries
    | _ => exact hspared hretries

/-- A watchdog that is not late, or is for a resource that is not in transfer, leaves the records alone. -/
theorem watchdogJob_spares (late : Bool)
    (h : late = false ∨ (s.resources r).initiator = true ∨ (s.resources r).status ≠ .transferring) :
    Spares env s (watchdogJob env r late s).2 := by
  unfold watchdogJob
  rw [Prog.get_bind_run]
  unfold Prog.when
  split
  case isFalse => exact .refl s
  case isTrue hlate =>
    have hretries : ∀ t : Endpoint, Spares env t (t.withResource r fun d => { d with retriesLeft := d.retriesLeft - 1 }) :=
      fun t => .withResource ⟨_, _, _, _, _, _, id, rfl⟩
    refine (?_ : Prog.Keeps (Spares env) _) s
    split
    case h_1 =>
      refine Prog.Keeps.ite (cancel_spares env r) ((sparing env).catching ((sparing env).modify_bind
        (fun t => .withResource ⟨_, _, _, _, _, _, id, rfl⟩) ?_) fun _ => cancel_spares env r)
      exact sendThen_spares env _ _ _
    case h_2 => exact cancel_spares env r
    case h_3 => exact Prog.Keeps.ite (cancel_spares env r) (.modify hretries)
    case h_4 hstatus hside =>
      obtain h | h | h := h
      · exact absurd (h.symm.trans hlate) Bool.false_ne_true
      · exact absurd (hside.symm.trans h) Bool.false_ne_true
      · exact absurd hstatus h
    case h_5 => exact (sparing env).pure _

/-- A watchdog that is late shrinks the window of its resource as the incident says. -/
theorem watchdogJob_reacts (late : Bool) (hr : r < s.created) (hside : (s.resources r).initiator = false) :
    Reacts env (fun q j => late = true ∧ Only r .late q j) s (watchdogJob env r late s).2 := by
  by_cases h : late = false ∨ (s.resources r).initiator = true ∨ (s.resources r).status ≠ .transferring
  case pos => exact (watchdogJob_spares late h).reacts _
  obtain ⟨hlate, h⟩ := not_or.mp h
  have hstatus : (s.resources r).status = .transferring := not_not.mp (not_or.mp h).2
  rw [Bool.not_eq_false] at hlate
  unfold watchdogJob
  rw [Prog.get_bind_run, Prog.when_of hlate, hstatus, hside]
  by_cases hretries : 0 < (s.resources r).retriesLeft
  · have hnext := requestNext_spares env r (s.withResource r fun d =>
      { shrinkWindow d with retriesLeft := d.retriesLeft - 1, waitingForHmu := false })
    rw [withResource_twice] at hnext
    have hreact : Reacts env (Only r .late) s _ :=
      .one hr (.refl s) hnext fun _ _ hbefore hafter => .late hbefore hside hafter
    dsimp only
    rw [if_pos hretries]
    exact hreact.mono fun _ _ hq => ⟨hlate, hq⟩
  · dsimp only
    rw [if_neg hretries]
    exact (cancel_spares env r s).reacts _

/-! ## The initiator -/

section Asked

variable (env)

/-- Serving parts is a frame of its own: the resource may only count what it sends. -/
theorem servingParts (r : Nat) : Prog.Frame (SparesBut env r Serves) :=
  sparingBut env r Serves.refl fun _ _ _ => Serves.trans

variable {env} in
theorem Spares.serves (h : Spares env s t) : SparesBut env r Serves s t := h.but fun _ _ => Aside.serves

theorem outbound_spares (p : Packet) : Prog.Keeps (Spares env) (outbound env p) :=
  (sparing env).get_bind fun _ => (sparing env).modify_bind (fun _ => .of_same rfl rfl) ((sparing env).bind
    ((sparing env).when (.modify fun _ => .of_same rfl rfl)) fun _ => (sparing env).pure _)

/-- Sending a part counts it as sent, the first time it is. -/
theorem sendPart_serves (r i : Nat) : Prog.Keeps (SparesBut env r Serves) (sendPart env r i) := by
  refine (servingParts env r).get_bind fun e => ?_
  split
  · exact (servingParts env r).pure _
  · refine .ite ((servingParts env r).bind (fun s => (outbound_spares env _ s).serves) fun taken => .modify fun s => ?_)
      ((servingParts env r).require_bind ((servingParts env r).bind (fun s => (outbound_spares env _ s).serves)
        fun taken => .modify fun s => ?_))
    all_goals exact .withResource ⟨_, _, _, _, _, _, _, _, _, rfl⟩

theorem sendHashmapUpdate_serves (r : Nat) (lastMapHash : Bytes) :
    Prog.Keeps (SparesBut env r Serves) (sendHashmapUpdate env r lastMapHash) := by
  have hgiveUp : Prog.Keeps (SparesBut env r Serves) (giveUp env r) := fun s => (giveUp_spares env r s).serves
  refine (servingParts env r).get_bind fun e => (servingParts env r).modify_bind
    (fun s => .withResource ⟨_, _, _, _, _, _, _, _, _, rfl⟩) ((servingParts env r).bind ((servingParts env r).when hgiveUp)
      fun _ => (servingParts env r).catching (fun s => (sendThen_spares env _ _ _ s).serves) fun _ => hgiveUp)

/-- A request for parts makes the resource of the initiator send, and nothing else. -/
theorem request_serves (r : Nat) (requestData : Bytes) :
    Prog.Keeps (SparesBut env r Serves) (Resource.request env r requestData) := by
  have hserves : ∀ {f : ResourceData → ResourceData}, (∀ d, Serves d (f d)) →
      ∀ s : Endpoint, SparesBut env r Serves s (s.withResource r f) := fun hf _ => .withResource (hf _)
  refine .call ((servingParts env r).get_bind fun e =>
    (servingParts env r).bind ((servingParts env r).when (servingParts env r).leave) fun _ =>
      (servingParts env r).modify_bind (hserves fun d => ⟨_, _, _, _, _, _, _, _, _, rfl⟩) ?_)
  refine (servingParts env r).bind ((servingParts env r).when (servingParts env r).leave) fun _ => ?_
  refine (servingParts env r).bind ((servingParts env r).forEach (fun i => (servingParts env r).when
    ((servingParts env r).catching (sendPart_serves env r i) fun _ s => (giveUp_spares env r s).serves)) _) fun _ => ?_
  refine (servingParts env r).bind ((servingParts env r).when (sendHashmapUpdate_serves env r _)) fun _ =>
    .modify (hserves fun d => ?_)
  split
  · exact ⟨_, _, _, _, _, _, _, _, _, rfl⟩
  · exact .refl d

end Asked

/-! ## Accepting -/

/-- One record is new, and behind that the records are spared. -/
theorem Spares.of_newborn {v : Endpoint} (hcreated : v.created = s.created + 1)
    (hold : ∀ q, q ≠ s.created → v.resources q = s.resources q) (h : Spares env v t)
    (hborn : ∀ d', Aside (v.resources s.created) d' → Born env d') : Spares env s t := by
  have hle := h.created
  refine ⟨by omega, fun q hq => ?_, fun q hq hlt => ?_⟩
  · rw [← hold q (Nat.ne_of_lt hq)]
    exact h.old q (by omega)
  · by_cases hqs : q = s.created
    · subst hqs
      exact hborn _ (h.old _ (by omega))
    · exact h.new q (by omega) hlt

/-- Accepting an advertisement makes a new resource, and spares the records of those that exist. -/
theorem accept_spares (env : Env) (plaintext requestId : Bytes) (concludedCallback : Bool) :
    Prog.Keeps (Spares env) (accept env plaintext requestId concludedCallback) := by
  intro s
  unfold accept
  obtain ⟨adv, hadv⟩ : ∃ adv, adv = Advertisement.unpack (env.decode plaintext) := ⟨_, rfl⟩
  rw [← hadv]
  split
  case isTrue => exact .refl s
  obtain ⟨u, hu⟩ : ∃ u, u = withNew [] s := ⟨_, rfl⟩
  have hold : ∀ q, q ≠ s.created → u.resources q = s.resources q := fun q hq => by
    rw [hu]
    exact Function.update_of_ne hq ..
  have hmade : u.resources s.created = { sdu := resourceSdu s.link } := by
    rw [hu]
    exact Function.update_self ..
  have hcreated : u.created = s.created + 1 := by rw [hu, withNew]
  rw [Prog.bind_value (newResource_run [] s), Prog.get_bind_run, ← hu, hmade]
  cases hcount : partCount adv.t (resourceSdu s.link) with
  | none =>
    exact Spares.of_newborn hcreated hold (.refl u) fun d' h => .made (Unsent.aside (hmade ▸ .made [] _) h)
  | some totalParts =>
    rw [Prog.bind_value (Prog.ofExcept_ok_run totalParts u), Prog.modify_bind_run]
    obtain ⟨v, hv⟩ : ∃ v, v = u.withResource s.created
        (.ofAdvertisement adv plaintext requestId totalParts concludedCallback) := ⟨_, rfl⟩
    have hvold : ∀ q, q ≠ s.created → v.resources q = s.resources q := fun q hq => by
      rw [hv, Endpoint.withResource_of_ne hq, hold q hq]
    have hvmade : v.resources s.created
        = accepted adv plaintext requestId totalParts concludedCallback (resourceSdu s.link) := by
      rw [hv, Endpoint.withResource_self, hmade, accepted]
    have hvcreated : v.created = s.created + 1 := by rw [hv, ← hcreated, Endpoint.withResource]
    rw [← hv]
    split
    case isTrue =>
      exact Spares.of_newborn hvcreated hvold (.refl v) fun d' h =>
        .accepted adv plaintext requestId totalParts concludedCallback _ hcount (.inl (hvmade ▸ h))
    rw [Prog.modify_bind_run]
    refine (sparing env).after ?_ fun _ => (sparing env).pure _
    obtain ⟨w, hw⟩ : ∃ w, w = (v.registerIncomingResource s.created).withResource s.created
        (updatedHashmap 0 adv.m) := ⟨_, rfl⟩
    have hwmade : w.resources s.created = updatedHashmap 0 adv.m (v.resources s.created) := by
      rw [hw, Endpoint.withResource_self, Endpoint.registerIncomingResource]
    refine Spares.of_newborn (v := w) (by rw [hw, ← hvcreated]; rfl) (fun q hq => ?_)
      (hw ▸ hashmapUpdate_spares env s.created 0 adv.m _) fun d' h => ?_
    · rw [hw, Endpoint.withResource_of_ne hq, Endpoint.registerIncomingResource, hvold q hq]
    · refine .accepted adv plaintext requestId totalParts concludedCallback (resourceSdu s.link) hcount (.inr ?_)
      rw [hwmade, hvmade] at h
      exact .hashmap (.refl _) rfl h

/-! ## Inputs -/

/-- A loop over different resources, each of which reacts when it is its turn. -/
theorem Reacts.each {may : Nat → Incident → Prop} {f : Nat → Prog String Endpoint Unit} {rs : List Nat}
    (hnodup : rs.Nodup) (hmade : ∀ q ∈ rs, q < s.created)
    (hf : ∀ q ∈ rs, ∀ t, Aside (s.resources q) (t.resources q) → q < t.created →
      Reacts env (fun r i => r = q ∧ may r i) t (f q t).2) :
    Reacts env (fun r i => r ∈ rs ∧ may r i) s (Prog.forEach rs f s).2 := by
  induction rs generalizing s with
  | nil => exact (Spares.refl s).reacts _
  | cons q rs ih =>
    obtain ⟨hfresh, hnodup⟩ := List.nodup_cons.mp hnodup
    have hfirst := hf q List.mem_cons_self s (.refl _) (hmade q List.mem_cons_self)
    have himp : ∀ r i, r = q ∧ may r i → r ∈ q :: rs ∧ may r i := fun r i ⟨hr, hi⟩ => ⟨hr ▸ List.mem_cons_self, hi⟩
    show Reacts env _ s ((f q >>= fun _ => Prog.forEach rs f) s).2
    rw [Prog.bind_run]
    rcases hrun : f q s with ⟨a | _ | _ | _, t⟩ <;> rw [hrun] at hfirst
    case value =>
      have hrest : Reacts env (fun r i => r ∈ rs ∧ may r i) t (Prog.forEach rs f t).2 := by
        refine ih hnodup (fun q' hq' => ?_) fun q' hq' u haside hlt => ?_
        · exact Nat.lt_of_lt_of_le (hmade q' (List.mem_cons_of_mem q hq')) hfirst.created
        · refine hf q' (List.mem_cons_of_mem q hq') u ?_ hlt
          obtain hbefore | ⟨i, ⟨hsame, -⟩, -⟩ := hfirst.old q' (hmade q' (List.mem_cons_of_mem q hq'))
          · exact hbefore.trans haside
          · exact absurd (hsame ▸ hq') hfresh
      refine (hfirst.trans hrest (fun r i hr => hmade r (List.mem_cons_of_mem q hr.1)) fun r i i' hr hr' =>
        hfresh (hr.1 ▸ hr'.1)).mono fun r i h => h.elim (himp r i) fun h => ⟨List.mem_cons_of_mem q h.1, h.2⟩
    all_goals exact hfirst.mono himp

/-- The incidents an input may bring about. -/
inductive Arises (s : Endpoint) : Input → Nat → Incident → Prop
  | part {packet : Packet} {receivingInterface : Option Transport.Interface} {rates : Nat → Rates} {r : Nat} :
      packet.context = ContextType.resource → r ∈ s.incomingResources →
      Arises s (.packet packet receivingInterface rates) r (.part packet.data (rates r))
  | hashmap {packet : Packet} {receivingInterface : Option Transport.Interface} {rates : Nat → Rates} {r : Nat}
      {segment : UInt16} {hashmap : Bytes} : packet.context = ContextType.resourceHmu → r ∈ s.incomingResources →
      Arises s (.packet packet receivingInterface rates) r (.hashmap segment hashmap)
  | late {late : Nat → Bool} {r : Nat} : late r = true → r ∈ s.incomingResources → Arises s (.tick late) r .late
  | asked {packet : Packet} {receivingInterface : Option Transport.Interface} {rates : Nat → Rates} {r : Nat} :
      packet.context = ContextType.resourceReq → r ∈ s.outgoingResources →
      Arises s (.packet packet receivingInterface rates) r .asked

/-- A decrypted packet that does not decrypt to nothing. -/
theorem withPlaintext_reacts {packet : Packet} {f : Bytes → Prog String Endpoint Unit} {may : Nat → Incident → Prop}
    (hf : ∀ plaintext t, Quiet env s t → Reacts env may t (f plaintext t).2) :
    Reacts env may s (withPlaintext env packet f s).2 := by
  unfold withPlaintext
  have hquiet : Quiet env s (decrypt env packet.data s).2 := decrypt_quiet packet.data s
  have hspares := Spares.of_quiet hquiet
  rw [Prog.bind_run]
  rcases hrun : decrypt env packet.data s with ⟨plaintext | _ | _ | _, t⟩ <;> rw [hrun] at hquiet hspares
  case value =>
    show Reacts env may s (Prog.when (plaintext ≠ []) (f plaintext) t).2
    unfold Prog.when
    split
    case isFalse => exact hspares.reacts _
    case isTrue =>
      have hreacts := hf plaintext t hquiet
      obtain ⟨_, _, _, rfl⟩ := hquiet.same
      exact ⟨hreacts.created, hreacts.old, hreacts.new⟩
  all_goals exact hspares.reacts _

/-- What is done for an incoming resource is a reaction of that resource alone, whichever one it is. -/
theorem forIncoming_reacts {plaintext : Bytes} {f : Nat → Prog String Endpoint Unit} {may : Nat → Incident → Prop}
    (hc : s.Clean) (hf : ∀ q ∈ s.incomingResources, ∀ t, (t.resources q).initiator = false → q < t.created →
      Reacts env (fun r i => r = q ∧ may r i) t (f q t).2) :
    Reacts env (fun r i => r ∈ s.incomingResources ∧ may r i) s (forIncoming plaintext f s).2 := by
  unfold forIncoming
  rw [Prog.get_bind_run]
  unfold Prog.when
  split
  case isFalse => exact (Spares.refl s).reacts _
  case isTrue =>
    refine (Reacts.each (hc.nodup.1.filter _) (fun q hq => (hc.incoming q (List.mem_of_mem_filter hq)).1)
      fun q hq t haside hlt => ?_).mono fun r i hr => ⟨List.mem_of_mem_filter hr.1, hr.2⟩
    have hmem := List.mem_of_mem_filter hq
    exact hf q hmem t (haside.initiator.trans (hc.incoming q hmem).2.1) hlt

section Contexts

variable (env)

/-- A packet that does not decrypt spares the records, and one that does goes on with its plaintext. -/
theorem withPlaintext_spares (packet : Packet) {f : Bytes → Prog String Endpoint Unit}
    (hf : ∀ plaintext, Prog.Keeps (Spares env) (f plaintext)) : Prog.Keeps (Spares env) (withPlaintext env packet f) :=
  (sparing env).bind (decrypt_spares env _) fun plaintext => (sparing env).when (hf plaintext)

/-- An advertisement can make a new resource, and spares the records of those that exist. -/
theorem receiveAdvertisement_spares (plaintext : Bytes) :
    Prog.Keeps (Spares env) (receiveAdvertisement env plaintext) := by
  have haccept : ∀ requestId callback, Prog.Keeps (Spares env)
      (do let _ ← accept env plaintext requestId callback : Prog String Endpoint Unit) := fun requestId callback =>
    (sparing env).bind (accept_spares env plaintext requestId callback) fun _ => (sparing env).pure _
  refine (sparing env).get_bind fun e => .ite (haccept _ _) (.ite ?_ ?_)
  · refine (sparing env).get_bind fun _ => (sparing env).forEach (fun q => (sparing env).bind
      (accept_spares env _ _ _) fun _ => ?_) _
    exact (sparing env).when (.modify fun _ => .of_same rfl rfl)
  · split
    · exact (sparing env).pure _
    · exact (sparing env).when ((sparing env).catching (haccept _ _) fun _ => (sparing env).pure _)
    · exact haccept _ _

theorem receiveIdentify_spares (packet : Packet) (plaintext : Bytes) :
    Prog.Keeps (Spares env) (receiveIdentify env packet plaintext) :=
  (sparing env).get_bind fun _ => (sparing env).when ((sparing env).when (.modify fun _ => .of_same rfl rfl))

/-- A request packet can start a resource with the response, and spares the records of those that exist. -/
theorem receiveRequest_spares (packet : Packet) : Prog.Keeps (Spares env) (receiveRequest env packet) := by
  refine (sparing env).catching ((sparing env).bind (decrypt_spares env _) fun p => (sparing env).when ?_)
    fun _ => (sparing env).pure _
  split
  · exact (sparing env).pure _
  · exact handleRequest_spares env _ _

theorem receiveResponse_spares (packet : Packet) : Prog.Keeps (Spares env) (receiveResponse env packet) :=
  (sparing env).catching ((sparing env).bind (decrypt_spares env _) fun _ => (sparing env).when
    (handleResponse_spares env _ _ _ _)) fun _ => (sparing env).pure _

theorem rttPacket_spares (packet : Packet) : Prog.Keeps (Spares env) (rttPacket env packet) :=
  (sparing env).bind (decrypt_spares env _) fun _ => (sparing env).when ((sparing env).get_bind fun _ =>
    (sparing env).modify_bind (fun _ => .of_same rfl rfl) (.modify fun _ => .of_same rfl rfl))

theorem teardownPacket_spares (packet : Packet) : Prog.Keeps (Spares env) (teardownPacket env packet) :=
  (sparing env).bind (decrypt_spares env _) fun _ => (sparing env).get_bind fun _ => (sparing env).when
    ((sparing env).modify_bind (fun _ => .of_same rfl rfl) ((sparing env).modify_bind
      (fun _ => .of_same rfl rfl) (linkClosed_spares env)))

/-- A proof that is right concludes the resource, and tells nothing new about its parts. -/
theorem validateProof_spares (r : Nat) (proofData : Bytes) :
    Prog.Keeps (Spares env) (Resource.validateProof env r proofData) :=
  (sparing env).get_bind fun _ => (sparing env).when ((sparing env).bind
    (setStatus_spares env r ResourceStatus.noConfusion) fun _ => (sparing env).bind (resourceConcluded_spares env r)
      fun _ => concludedCallback_spares env r)

theorem receiveProof_spares (packet : Packet) : Prog.Keeps (Spares env) (receiveProof env packet) :=
  (sparing env).get_bind fun _ => (sparing env).when ((sparing env).forEach
    (fun r => validateProof_spares env r _) _)

theorem transfer_spares (data requestId : Bytes) (isResponse concludedCallback : Bool) :
    Prog.Keeps (Spares env) (transfer env data requestId isResponse concludedCallback) := by
  refine fun s => Spares.of_new env _ fun u hu hunsent => ?_
  rw [Prog.modify_bind_run]
  have hmarked : SparesBut env s.created StaysUnsent u
      (u.withResource s.created fun d => { d with requestId, isResponse, concludedCallback }) :=
    .withResource fun hd => ⟨hd.receiver, hd.window, hd.countable, hd.unsent, hd.sentParts, hd.status,
      hd.receiverMin, hd.initiator⟩
  exact (starting env s.created).trans _ _ _ hmarked (start_starts env s.created (hmarked.mine hu hunsent))

end Contexts

/-- What makes the resource of the initiator send is the reaction to having been asked. -/
theorem SparesBut.reacts (h : SparesBut env r Serves s t) (hr : r < s.created)
    (hside : (s.resources r).initiator = true) : Reacts env (Only r .asked) s t := by
  refine ⟨h.created, fun q hq => ?_, fun q hq hlt => h.new q hq hlt (by omega)⟩
  by_cases hqr : q = r
  · subst hqr
    exact .inr ⟨.asked, ⟨rfl, rfl⟩, .asked hside (h.mine hr)⟩
  · exact .inl (h.others q hq hqr)

/-- A request for parts is an incident for one of the outgoing resources, the one that has the hash it names. -/
theorem receiveResourceRequest_reacts (hc : s.Clean) (packet : Packet) (plaintext : Bytes) :
    Reacts env (fun r i => r ∈ s.outgoingResources ∧ i = .asked) s
      (receiveResourceRequest env packet plaintext s).2 := by
  have hspared : ∀ {t}, Spares env s t → Reacts env (fun r i => r ∈ s.outgoingResources ∧ i = .asked) s t :=
    fun h => h.reacts _
  unfold receiveResourceRequest
  rw [Prog.get_bind_run]
  unfold Prog.when
  split
  case isFalse => exact hspared (.refl s)
  cases hfound : s.outgoingResources.find? fun r => (s.resources r).hash = requestedHash plaintext with
  | none => exact hspared (.refl s)
  | some r =>
    have hmem := List.mem_of_find?_eq_some hfound
    dsimp only
    split
    case isFalse => exact hspared (.refl s)
    rw [Prog.modify_bind_run]
    have hnoted : SparesBut env r Serves s (s.withResource r fun d =>
        { d with reqHashlist := d.reqHashlist ++ [getHash env.fullHash packet] }) :=
      .withResource ⟨_, _, _, _, _, _, _, _, _, rfl⟩
    have hserves := (servingParts env r).trans _ _ _ hnoted (request_serves env r plaintext _)
    exact (hserves.reacts (hc.outgoing r hmem).1 (hc.outgoing r hmem).2.1).mono fun q i ⟨hq, hi⟩ => ⟨hq ▸ hmem, hi⟩

/-- A data packet causes an incident of the kind its context says, for one resource at most. -/
theorem receiveData_reacts (hc : s.Clean) (packet : Packet) (receivingInterface : Option Transport.Interface)
    (rates : Nat → Rates) :
    Reacts env (Arises s (.packet packet receivingInterface rates)) s (receiveData env packet rates s).2 := by
  have hspared : ∀ {m : Prog String Endpoint Unit}, Prog.Keeps (Spares env) m →
      Reacts env (Arises s (.packet packet receivingInterface rates)) s (m s).2 := fun h => (h s).reacts _
  have hclean : ∀ {t}, Quiet env s t → t.Clean ∧ t.incomingResources = s.incomingResources
      ∧ t.outgoingResources = s.outgoingResources := by
    intro t h
    refine ⟨h.clean hc, ?_⟩
    obtain ⟨_, _, _, rfl⟩ := h.same
    exact ⟨rfl, rfl⟩
  refine Reacts.ite_at (fun _ => ?_) fun _ => Reacts.ite_at (fun _ => ?_) fun _ => Reacts.ite_at (fun _ => ?_)
    fun _ => Reacts.ite_at (fun _ => ?_) fun _ => Reacts.ite_at (fun _ => ?_) fun _ => Reacts.ite_at (fun _ => ?_)
    fun _ => Reacts.ite_at (fun _ => ?_) fun _ => Reacts.ite_at (fun hcontext => ?_) fun _ =>
    Reacts.ite_at (fun hcontext => ?_) fun _ => Reacts.ite_at (fun _ => ?_) fun _ => Reacts.ite_at (fun _ => ?_)
    fun _ => Reacts.ite_at (fun hcontext => ?_) fun _ => hspared ((sparing env).pure _)
  · exact hspared (withPlaintext_spares env packet fun _ => .modify fun _ => .of_same rfl rfl)
  · exact hspared (withPlaintext_spares env packet fun _ => receiveIdentify_spares env packet _)
  · exact hspared (receiveRequest_spares env packet)
  · exact hspared (receiveResponse_spares env packet)
  · exact hspared ((sparing env).get_bind fun _ => (sparing env).when (rttPacket_spares env packet))
  · exact hspared (teardownPacket_spares env packet)
  · exact hspared (withPlaintext_spares env packet fun _ => receiveAdvertisement_spares env _)
  · refine withPlaintext_reacts fun plaintext t hquiet => ?_
    obtain ⟨hc', -, hout⟩ := hclean hquiet
    refine (receiveResourceRequest_reacts hc' packet plaintext).mono fun r i hr => ?_
    rw [hout] at hr
    exact hr.2 ▸ .asked hcontext hr.1
  · refine withPlaintext_reacts fun plaintext t hquiet => ?_
    obtain ⟨hc', hin, -⟩ := hclean hquiet
    have hreacts : Reacts env (fun r i => r ∈ t.incomingResources ∧ ∃ segment hashmap, i = .hashmap segment hashmap) t
        (forIncoming plaintext (fun r => hashmapUpdatePacket env r plaintext) t).2 :=
      forIncoming_reacts hc' fun q hq u hside hlt => by
        obtain ⟨segment, hashmap, hreacts⟩ := @hashmapUpdatePacket_reacts env u q plaintext hlt hside
        exact hreacts.mono fun r i ⟨hr, hi⟩ => ⟨hr, segment, hashmap, hi⟩
    refine hreacts.mono fun r i hr => ?_
    obtain ⟨hmem, segment, hashmap, rfl⟩ := hr
    exact .hashmap hcontext (hin ▸ hmem)
  · exact hspared (withPlaintext_spares env packet fun plaintext => (sparing env).get_bind fun _ =>
      (sparing env).when ((sparing env).forEach (fun r => cancel_spares env r) _))
  · exact hspared ((sparing env).get_bind fun _ => (sparing env).when (sendThen_spares env _ _ _))
  · have hreacts : Reacts env (fun r i => r ∈ s.incomingResources ∧ i = .part packet.data (rates r)) s
        (Prog.forEach s.incomingResources (fun r => receivePart env r packet (rates r)) s).2 :=
      Reacts.each hc.nodup.1 (fun q hq => (hc.incoming q hq).1) fun q hq t haside hlt =>
        (receivePart_reacts packet (rates q) hlt (haside.initiator.trans (hc.incoming q hq).2.1)).mono
          fun r i ⟨hr, hi⟩ => ⟨hr, hr ▸ hi⟩
    exact hreacts.mono fun r i hr => hr.2 ▸ .part hcontext hr.1

/-- A packet causes an incident for one resource at most, whatever it is and whatever state the link is in. -/
theorem receive_reacts (hc : s.Clean) (packet : Packet) (receivingInterface : Option Transport.Interface)
    (rates : Nat → Rates) :
    Reacts env (Arises s (.packet packet receivingInterface rates)) s
      (receive env packet receivingInterface rates s).2 := by
  unfold receive
  rw [Prog.get_bind_run]
  unfold Prog.when
  split
  case isFalse => exact (Spares.refl s).reacts _
  rw [Prog.modify_bind_run]
  obtain ⟨t, ht⟩ : ∃ t, t = s.withLink fun l => { l with status := if l.status = .stale then .active else l.status } :=
    ⟨_, rfl⟩
  have hc' : t.Clean := by
    rw [ht]
    exact ⟨hc.nodup, hc.incoming, hc.outgoing, hc.parts⟩
  have hreacts : ∀ {u}, Reacts env (Arises t (.packet packet receivingInterface rates)) t u →
      Reacts env (Arises s (.packet packet receivingInterface rates)) s u := by
    intro u h
    subst ht
    refine Reacts.mono ⟨h.created, h.old, h.new⟩ fun r i hr => ?_
    cases hr with
    | part hcontext hmem => exact .part hcontext hmem
    | hashmap hcontext hmem => exact .hashmap hcontext hmem
    | asked hcontext hmem => exact .asked hcontext hmem
  rw [← ht]
  cases packet.packetType with
  | data => exact hreacts (receiveData_reacts hc' packet receivingInterface rates)
  | proof => exact hreacts ((receiveProof_spares env packet t).reacts _)
  | announce => exact hreacts ((Spares.refl t).reacts _)
  | linkrequest => exact hreacts ((Spares.refl t).reacts _)

/-- The watchdogs cause an incident for each resource that is late, and for no other. -/
theorem tickResources_reacts (hc : s.Clean) (late : Nat → Bool) :
    Reacts env (Arises s (.tick late)) s (tickResources env late s).2 := by
  unfold tickResources
  rw [Prog.get_bind_run]
  unfold Prog.when
  split
  case isFalse => exact (Spares.refl s).reacts _
  have hin : Reacts env (fun r i => r ∈ s.incomingResources ∧ late r = true ∧ i = .late) s
      (Prog.forEach s.incomingResources (fun r => watchdogJob env r (late r)) s).2 :=
    Reacts.each hc.nodup.1 (fun q hq => (hc.incoming q hq).1) fun q hq t haside hlt =>
      (watchdogJob_reacts (late q) hlt (haside.initiator.trans (hc.incoming q hq).2.1)).mono
        fun r i ⟨hlate, hr, hi⟩ => ⟨hr, hr ▸ hlate, hi⟩
  have himp : ∀ r i, r ∈ s.incomingResources ∧ late r = true ∧ i = .late → Arises s (.tick late) r i :=
    fun r i ⟨hmem, hlate, hi⟩ => hi ▸ .late hlate hmem
  rw [Prog.bind_run]
  rcases hrun : Prog.forEach s.incomingResources (fun r => watchdogJob env r (late r)) s
    with ⟨a | _ | _ | _, t⟩ <;> rw [hrun] at hin
  case value =>
    -- the initiators have not changed sides, and none of them is told that it is late as a receiver
    have hout : Reacts env (fun r _ => r ∈ s.outgoingResources ∧ False) t
        (Prog.forEach s.outgoingResources (fun r => watchdogJob env r (late r)) t).2 := by
      refine Reacts.each hc.nodup.2 (fun q hq => Nat.lt_of_lt_of_le (hc.outgoing q hq).1 hin.created)
        fun q hq u haside hlt => ?_
      refine (watchdogJob_spares (late q) (.inr (.inl (haside.initiator.trans ?_)))).reacts _
      obtain hbefore | ⟨i, ⟨hmem, -⟩, -⟩ := hin.old q (hc.outgoing q hq).1
      · exact hbefore.initiator.trans (hc.outgoing q hq).2.1
      · exact absurd ((hc.incoming q hmem).2.1.symm.trans (hc.outgoing q hq).2.1) Bool.false_ne_true
    exact (hin.trans hout (fun _ _ h => h.2.elim) fun _ _ _ _ h => h.2).mono
      fun r i h => h.elim (himp r i) fun h => h.2.elim
  all_goals exact hin.mono himp

/-- What an input does to the records of a clean endpoint. -/
theorem handle_reacts (env : Env) (input : Input) (hc : s.Clean) :
    Reacts env (Arises s input) s (step env s input) := by
  have hspared : ∀ {m : Prog String Endpoint Unit}, Prog.Keeps (Spares env) m →
      Reacts env (Arises s input) s (m s).2 := fun h => (h s).reacts _
  cases input with
  | packet packet receivingInterface rates => exact receive_reacts hc packet receivingInterface rates
  | tick late => exact tickResources_reacts hc late
  | request path data =>
    exact hspared ((sparing env).bind (request_spares env path data) fun _ => (sparing env).pure _)
  | transfer data requestId isResponse callback => exact hspared (transfer_spares env data requestId isResponse callback)
  | cancel r => exact hspared ((sparing env).get_bind fun _ => (sparing env).when (cancel_spares env r))
  | rejected r => exact hspared ((sparing env).get_bind fun _ => (sparing env).when (rejected_spares env r))
  | teardown => exact hspared (teardown_spares env)
  | configure => exact hspared (.modify fun _ => .of_same rfl rfl)

/-! ## Runs -/

/-- An invariant of the records: it holds of new ones, it is kept aside, and every reaction of an input keeps it
where the input is as `ok` says. -/
structure RecordInvariant (env : Env) (ok : Endpoint → Input → Prop) (P : ResourceData → Prop) : Prop where
  aside : ∀ d d', Aside d d' → P d → P d'
  born : ∀ d, Born env d → P d
  reaction : ∀ (s : Endpoint) (input : Input) (r : Nat) (i : Incident) (d' : ResourceData), ok s input →
    Arises s input r i → P (s.resources r) → Reaction env i (s.resources r) d' → P d'

/-- The inputs of a run, each with the endpoint it comes to, are as `ok` says. -/
def Throughout (env : Env) (ok : Endpoint → Input → Prop) : Endpoint → List Input → Prop
  | _, [] => True
  | s, input :: inputs => ok s input ∧ Throughout env ok (step env s input) inputs

/-- What holds throughout a run holds throughout its beginning and at its last input. -/
theorem Throughout.last {ok : Endpoint → Input → Prop} {inputs : List Input} {input : Input}
    (h : Throughout env ok s (inputs ++ [input])) : Throughout env ok s inputs ∧ ok (run env s inputs) input := by
  induction inputs generalizing s with
  | nil => exact ⟨trivial, h.1⟩
  | cons first inputs ih =>
    obtain ⟨hrest, hlast⟩ := ih h.2
    exact ⟨⟨h.1, hrest⟩, hlast⟩

/-- A run over two sequences of inputs is the run over the second from where the first one ends. -/
theorem run_append (env : Env) (s : Endpoint) (inputs more : List Input) :
    run env s (inputs ++ more) = run env (run env s inputs) more := List.foldl_append

theorem run_created_le (env : Env) (hc : s.Clean) (inputs : List Input) : s.created ≤ (run env s inputs).created := by
  unfold run
  induction inputs generalizing s with
  | nil => exact Nat.le_refl _
  | cons input inputs ih => exact Nat.le_trans (handle_reacts env input hc).created (ih (handle_writes env input hc).2)

/-- What the reactions keep of a record is kept for all resources in every step. -/
theorem step_record {ok : Endpoint → Input → Prop} {P : ResourceData → Prop} (hP : RecordInvariant env ok P)
    {input : Input} (hok : ok s input) (hc : s.Clean) (hs : ∀ r < s.created, P (s.resources r)) :
    ∀ r < (step env s input).created, P ((step env s input).resources r) := by
  have hreacts := handle_reacts env input hc
  intro r hr
  by_cases hmade : r < s.created
  · obtain haside | ⟨i, hi, hreaction⟩ := hreacts.old r hmade
    · exact hP.aside _ _ haside (hs r hmade)
    · exact hP.reaction s input r i _ hok hi (hs r hmade) hreaction
  · exact hP.born _ (hreacts.new r (Nat.not_lt.mp hmade) hr)

/-- What every reaction keeps, a run keeps. -/
theorem run_record {ok : Endpoint → Input → Prop} {P : ResourceData → Prop} (hP : RecordInvariant env ok P)
    {inputs : List Input} (hok : Throughout env ok s inputs) (hc : s.Clean) (hs : ∀ r < s.created, P (s.resources r)) :
    ∀ r < (run env s inputs).created, P ((run env s inputs).resources r) := by
  unfold run
  induction inputs generalizing s with
  | nil => exact hs
  | cons input inputs ih => exact ih hok.2 (handle_writes env input hc).2 (step_record hP hok.1 hc hs)

end Reactions

end MicroReticulum.Link
