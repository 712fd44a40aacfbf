import MicroReticulum.Provisioning.RefusedValues
import MicroReticulum.Provisioning.Secrets
import Mathlib.Algebra.GroupWithZero.Nat

/-!
# Commits in which setters refuse

The two ways to commit are taken together here: `Way.stages` are the namespaces a commit comes to, each with the
device it finds. `OnlyOwnHarm` says of one of them that a setter that refuses harms its own field only, and
`refusal_harms_only_itself` says it of all, with what is counted and when the flag goes up. The refused value
itself stays, as the working value that is then saved.

A setter that throws, instead of refusing, ends a commit half done and is outside of these
statements.
-/

namespace MicroReticulum.Provisioning

open MicroReticulum Library Provisioner

variable {R F : Type}

/-! ## The commit of a namespace -/

/-- What a file holds of a field depends on its own working value and the runtime. -/
theorem persistValue_congr {d : NamespaceDecl R} {f : Field R} (hf : f ∈ d.fields) {s t : NamespaceState} (r : R)
    (h : s.working.lookup f.id = t.working.lookup f.id) : d.persistValue s r f = d.persistValue t r f := by
  have hvalue : s.workingValue f.id = t.workingValue f.id := by
    unfold NamespaceState.workingValue
    rw [h]
  unfold NamespaceDecl.persistValue NamespaceDecl.settledValue NamespaceDecl.effective
  rw [NamespaceDecl.findField_of_mem hf, hvalue]

/-- The device with another state of a namespace and another runtime. -/
def Provisioner.withState (d : NamespaceDecl R) (x : NamespaceState × R) (p : Provisioner R F) : Provisioner R F :=
  { p.setState d.id x.1 with runtime := x.2 }

theorem withState_same (p : Provisioner R F) (d : NamespaceDecl R) :
    p.withState d (p.stateOf d.id, p.runtime) = p := by
  have hmap : p.namespaces.map (putState d.id (p.stateOf d.id)) = p.namespaces := by
    refine (List.map_congr_left fun n hn => ?_).trans (List.map_id _)
    unfold putState
    split
    · next heq => rw [← heq, stateOf_of_mem hn]; rfl
    · rfl
  simp only [Provisioner.withState, setState, hmap]

/-- Of two states put in for one namespace the second counts. -/
theorem withState_withState (p : Provisioner R F) (d : NamespaceDecl R) (x y : NamespaceState × R) :
    (p.withState d x).withState d y = p.withState d y := by
  unfold Provisioner.withState setState
  simp only [List.map_map]
  congr 1
  refine List.map_congr_left fun n _ => ?_
  simp only [Function.comp_apply, putState]
  split <;> simp_all

/-- The state that was put in is found. -/
theorem stateOf_withState {p : Provisioner R F} {d : NamespaceDecl R} (hd : d ∈ p.decls) (x : NamespaceState × R) :
    (p.withState d x).stateOf d.id = x.1 := by
  show (p.setState d.id x.1).stateOf d.id = x.1
  rw [stateOf_setState hd, if_pos rfl]

/-- What a program does to the state of a namespace it does within the provisioner. -/
theorem onNamespace_run {d : NamespaceDecl R} {α : Type} {m : Prog String (NamespaceState × R) α}
    {p : Provisioner R F} {o : Outcome String α} {x : NamespaceState × R}
    (h : m (p.stateOf d.id, p.runtime) = (o, x)) : onNamespace d m p = (o, p.withState d x) := by
  unfold onNamespace Prog.zoom
  rw [h]
  rfl

/-- Programs on one namespace, one after the other, are one program on it. -/
theorem mapEach_onNamespace {d : NamespaceDecl R} {α β : Type} (bs : List β)
    (m : β → Prog String (NamespaceState × R) α) {p : Provisioner R F} (hd : d ∈ p.decls) :
    Prog.mapEach bs (fun b => onNamespace d (m b)) p = onNamespace d (Prog.mapEach bs m) p := by
  induction bs generalizing p with
  | nil => exact Prod.ext rfl (withState_same p d).symm
  | cons b bs ih =>
    rcases hone : m b (p.stateOf d.id, p.runtime) with ⟨a | _ | _ | _, y⟩ <;>
      rw [Prog.mapEach_cons_run, onNamespace_run hone]
    case value =>
      have hdecls : d ∈ (p.withState d y).decls := (setState_decls d.id y.1 p).symm ▸ hd
      rcases hrest : Prog.mapEach bs m y with ⟨o, z⟩
      have hrest' : Prog.mapEach bs m ((p.withState d y).stateOf d.id, (p.withState d y).runtime) = (o, z) := by
        rw [stateOf_withState hd]
        exact hrest
      simp only [ih hdecls, onNamespace_run hrest', withState_withState]
      refine (onNamespace_run ?_).symm
      rw [Prog.mapEach_cons_run, hone]
      simp only [hrest]
    all_goals
      refine (onNamespace_run ?_).symm
      rw [Prog.mapEach_cons_run, hone]

/-- The state of a namespace and the runtime, as the commit hook leaves them. -/
def hookLeft (d : NamespaceDecl R) (p : Provisioner R F) : NamespaceState × R :=
  ((runHook d p).2.stateOf d.id, (runHook d p).2.runtime)

/-- The drafts that are committed. -/
def pendingIds (d : NamespaceDecl R) (p : Provisioner R F) : List FieldId := draftIds d (hookLeft d p).1

theorem pendingIds_nodup (d : NamespaceDecl R) (p : Provisioner R F) : (pendingIds d p).Nodup :=
  d.distinct.sublist (List.filter_sublist.map Field.id)

/-- What is counted of a namespace if the fields whose setters refuse have no drafts. -/
def countedWithout (d : NamespaceDecl R) (p : Provisioner R F) : List CommitOutcome :=
  match Prog.mapEach (pendingIds d p) d.commitWithoutDraft (hookLeft d p) with
  | (.value os, _) => os.filter CommitOutcome.applied
  | _ => []

/-- The refusals in the commit of a namespace. -/
def refusalsAt (d : NamespaceDecl R) (p : Provisioner R F) : List (Refusal R) :=
  d.refusals (pendingIds d p) (hookLeft d p)

/-- The drafts of a namespace are committed, `q` is the device before the file is written, and a setter that
refuses harms its own field only. `s'` is the state that the namespace is left in without the drafts of the
fields whose setters refuse. -/
structure OnlyOwnHarm (env : Env F) (d : NamespaceDecl R) (p : Provisioner R F) (os : List CommitOutcome)
    (q : Provisioner R F) (s' : NamespaceState) : Prop where
  committed : applyDrafts d p = (.value os, q)
  written : (commitDrafts env d p).2 = (saveNamespace env d q).2
  without : ∃ os', Prog.mapEach (pendingIds d p) d.commitWithoutDraft (hookLeft d p) = (.value os', (s', q.runtime))
  counted : os.filter CommitOutcome.applied = countedWithout d p
  draft : ∀ id, (q.stateOf d.id).draft.lookup id = s'.draft.lookup id
  working : ∀ id ∉ leftWith (refusalsAt d p), (q.stateOf d.id).working.lookup id = s'.working.lookup id
  /-- the file is written, and holds the same of every other field -/
  saved : s'.dirtyForPersist = true → (q.stateOf d.id).dirtyForPersist = true
  stored : ∀ f ∈ d.fields, f.id ∉ leftWith (refusalsAt d p) →
    d.persistValue (q.stateOf d.id) q.runtime f = d.persistValue s' q.runtime f
  /-- a write-only field keeps what it had, any other one has the refused value -/
  own : ∀ w ∈ refusalsAt d p, (hookLeft d p).1.draft.lookup w.field.id = some w.value ∧
    if w.field.hasFlag ffWriteOnly
    then (q.stateOf d.id).working.lookup w.field.id = (hookLeft d p).1.working.lookup w.field.id
    else (q.stateOf d.id).working.lookup w.field.id = some w.value ∧ (q.stateOf d.id).dirtyForPersist = true

/-- The setters that the commit of a namespace calls come back with answers. -/
def SettersAnswer (d : NamespaceDecl R) (p : Provisioner R F) : Prop :=
  d.AllAnswered (pendingIds d p) (hookLeft d p)

/-- Where the setters answer, committing a namespace comes back, and harms only the fields that are refused. -/
theorem only_own_harm (env : Env F) {d : NamespaceDecl R} {p : Provisioner R F} (hd : d ∈ p.decls)
    (hhook : (runHook d p).1 = .value ()) (h : SettersAnswer d p) : ∃ os q s', OnlyOwnHarm env d p os q s' := by
  obtain ⟨os, os', s, t, r, hrun, hwithout, hcount, halike⟩ := NamespaceDecl.commits_alike h (AlikeBut.refl _)
  rw [List.append_nil] at halike
  have hmem : d ∈ (runHook d p).2.decls := (runHook_decls (F := F) d p).symm ▸ hd
  let q := (runHook d p).2.withState d (s, r)
  have hstate : q.stateOf d.id = s := stateOf_withState hmem (s, r)
  have hcommitted : applyDrafts d p = (.value os, q) := by
    unfold applyDrafts
    rw [Prog.bind_value (Prod.ext hhook rfl), Prog.get_bind_run, mapEach_onNamespace _ _ hmem]
    exact onNamespace_run hrun
  refine ⟨os, q, t, hcommitted, ?_, ⟨os', hwithout⟩, ?_, ?_, ?_, ?_, ?_, fun w hw => ?_⟩
  · unfold commitDrafts
    rw [Prog.get_bind_run, Prog.bind_value hcommitted]
    exact congrArg Prod.snd (Prog.bind_pure_run _ _ _)
  · have hwithout' : Prog.mapEach (pendingIds d p) d.commitWithoutDraft (hookLeft d p) = _ := hwithout
    unfold countedWithout
    rw [hwithout', hcount]
  · rw [hstate]; exact halike.draft
  · rw [hstate]; exact halike.working
  · rw [hstate]; exact halike.dirty
  · rw [hstate]
    exact fun f hf hnot => persistValue_congr hf _ (halike.working f.id hnot)
  · have hown := NamespaceDecl.refused_own (pendingIds_nodup d p) h hw
    have hrun' : Prog.mapEach (pendingIds d p) d.commitOne (hookLeft d p) = _ := hrun
    rw [hrun'] at hown
    rw [hstate]
    exact hown

/-! ## The whole commit -/

/-- The namespaces a run comes to, each with the device it finds. -/
def stagesOf {α : Type} (one : NamespaceDecl R → Prog String (Provisioner R F) α) :
    List (NamespaceDecl R) → Provisioner R F → List (NamespaceDecl R × Provisioner R F)
  | [], _ => []
  | d :: ds, p =>
    (d, p) :: match one d p with
      | (.value _, q) => stagesOf one ds q
      | _ => []

section Stages

variable {α : Type} {one : NamespaceDecl R → Prog String (Provisioner R F) α}

/-- What is kept from one namespace to the next is kept up to each of them. -/
theorem stagesOf_mem {RS : Provisioner R F → Provisioner R F → Prop} (hrefl : ∀ p, RS p p)
    (htrans : ∀ p q t, RS p q → RS q t → RS p t) (hkeeps : ∀ d, Prog.Keeps RS (one d))
    {ds : List (NamespaceDecl R)} {p : Provisioner R F} {x : NamespaceDecl R × Provisioner R F}
    (hx : x ∈ stagesOf one ds p) : x.1 ∈ ds ∧ RS p x.2 := by
  induction ds generalizing p with
  | nil => cases hx
  | cons d ds ih =>
    unfold stagesOf at hx
    rcases List.mem_cons.mp hx with rfl | hlater
    · exact ⟨List.mem_cons_self, hrefl p⟩
    · have hkept := hkeeps d p
      rcases hone : one d p with ⟨a | _ | _ | _, q⟩ <;> rw [hone] at hlater hkept
      case value =>
        obtain ⟨hmem, hrest⟩ := ih hlater
        exact ⟨List.mem_cons_of_mem d hmem, htrans p q x.2 hkept hrest⟩
      all_goals cases hlater

/-- A run whose steps all come to values comes to every namespace, and to the values of its steps. -/
theorem mapEach_of_stages {γ : Type} {g : α → γ} {h : NamespaceDecl R × Provisioner R F → γ}
    {ds : List (NamespaceDecl R)} {p : Provisioner R F}
    (hall : ∀ x ∈ stagesOf one ds p, ∃ a t, one x.1 x.2 = (.value a, t) ∧ g a = h x) :
    (stagesOf one ds p).map Prod.fst = ds
      ∧ ∃ as q, Prog.mapEach ds one p = (.value as, q) ∧ as.map g = (stagesOf one ds p).map h := by
  induction ds generalizing p with
  | nil => exact ⟨rfl, [], p, rfl, rfl⟩
  | cons d ds ih =>
    unfold stagesOf at hall ⊢
    obtain ⟨a, q, hone, hvalue⟩ := hall (d, p) List.mem_cons_self
    dsimp only at hone
    rw [hone] at hall ⊢
    obtain ⟨hnames, as, t, hrest, hvalues⟩ := ih fun x hx => hall x (List.mem_cons_of_mem _ hx)
    refine ⟨congrArg (d :: ·) hnames, a :: as, t, ?_, congrArg₂ List.cons hvalue hvalues⟩
    rw [Prog.mapEach_cons_run, hone]
    simp only [hrest]
    rfl

end Stages

/-- A commit: a request with its payload, or a call for one namespace or, with the id zero, for all. -/
inductive Way where
  | wire (seq : UInt64) (payload : Option Cursor)
  | inProcess (id : NamespaceId)

namespace Way

/-- The namespaces it is about. -/
def scope (p : Provisioner R F) : Way → List (NamespaceDecl R)
  | .wire _ payload => commitScope p payload
  | .inProcess id => if id = 0 then p.decls else (p.find id).toList

/-- The commit, with the response where there is one. -/
def commit (env : Env F) : Way → Prog String (Provisioner R F) (Option (List Token))
  | .wire seq payload => opCommit env seq payload >>= fun response => pure (some response)
  | .inProcess id => Provisioner.commit env id >>= fun _ => pure none

/-- One of its namespaces. -/
def one (env : Env F) : Way → NamespaceDecl R → Prog String (Provisioner R F) (Committed R)
  | .wire _ _, d => commitDrafts env d
  | .inProcess _, d => commitDrafts env d >>= fun c =>
      Prog.when (c.reboot = true) (setRebootFlag true) >>= fun _ => pure c

/-- The namespaces it comes to, each with the device it finds. -/
def stages (env : Env F) (way : Way) (p : Provisioner R F) : List (NamespaceDecl R × Provisioner R F) :=
  stagesOf (way.one env) (way.scope p) p

/-- The response counts `n` fields. -/
def Counts (env : Env F) (q : Provisioner R F) (n : Nat) (answer : Option (List Token)) : Way → Prop
  | .wire seq payload =>
    let o := readOptions { namespaceFilter := true, includeState := true } payload
    ∃ touched, answer = some (packResponse env Op.commit seq o.compress (commitBody env q o.includeState n touched))
  | .inProcess _ => answer = none

end Way

/-- The code that the device is built on comes back, with a result or an exception. -/
structure Responsive (env : Env F) (p : Provisioner R F) : Prop where
  files : env.fs.Answer
  hooks : ∀ d ∈ p.decls, ∀ hook, d.onCommit = some hook → Prog.Answers (hook d.fields)
  callback : ∀ m, p.onRebootRequired = some m → Prog.Answers m

/-- That the callbacks answer depends on what is registered. -/
theorem Responsive.congr {env : Env F} {p q : Provisioner R F} (h : Responsive env p) (hdecls : q.decls = p.decls)
    (hcallback : q.onRebootRequired = p.onRebootRequired) : Responsive env q :=
  ⟨h.files, by rw [hdecls]; exact h.hooks, by rw [hcallback]; exact h.callback⟩

theorem decls_unique {p : Provisioner R F} {d : NamespaceDecl R} (hd : d ∈ p.decls) :
    ∀ d' ∈ p.decls, d'.id = d.id → d' = d := by
  intro d' hd' heq
  have hfind := find_of_mem hd
  rw [← heq] at hfind
  exact Option.some.inj ((find_of_mem hd').symm.trans hfind)

section Run

variable {env : Env F} {p : Provisioner R F} {d : NamespaceDecl R}

/-- The hook of a namespace that answers comes back. -/
theorem runHook_value (h : Responsive env p) (hd : d ∈ p.decls) : (runHook d p).1 = .value () := by
  unfold runHook
  rw [Prog.get_bind_run]
  cases hhook : d.onCommit with
  | none => rfl
  | some hook =>
    rcases Prog.when_run_cases ((p.stateOf d.id).hasAnyDraft = true)
      (onNamespace d (Prog.catching (hook d.fields) fun _ => pure ())) p with ⟨-, hrun⟩ | ⟨-, hrun⟩
    · obtain ⟨_, hvalue⟩ := (h.hooks d hd hook hhook).catching (fun _ => ()) (p.stateOf d.id, p.runtime)
      exact (congrArg Prod.fst hrun).trans hvalue
    · exact congrArg Prod.fst hrun

/-- The reboot flag is raised and never lowered. -/
theorem setRebootFlag_flag (b : Bool) (p : Provisioner R F) :
    (setRebootFlag b p).2.needsReboot = (p.needsReboot || b)
      ∧ (setRebootFlag b p).2.onRebootRequired = p.onRebootRequired := by
  unfold setRebootFlag
  rw [Prog.get_bind_run]
  cases b with
  | false => exact ⟨(Bool.or_false _).symm, rfl⟩
  | true =>
    rw [Prog.when_of rfl, Prog.modify_bind_run, Bool.or_true]
    rcases Prog.when_run_cases (p.needsReboot = false) (callback p.onRebootRequired)
      { p with needsReboot := true } with ⟨-, hrun⟩ | ⟨-, hrun⟩ <;> rw [hrun]
    · cases p.onRebootRequired <;> exact ⟨rfl, rfl⟩
    · exact ⟨rfl, rfl⟩

/-- Raising the reboot flag comes back, if its callback does. -/
theorem setRebootFlag_value (h : Responsive env p) (b : Bool) : (setRebootFlag b p).1 = .value () := by
  unfold setRebootFlag
  rw [Prog.get_bind_run]
  cases b with
  | false => rfl
  | true =>
    rw [Prog.when_of rfl, Prog.modify_bind_run]
    rcases Prog.when_run_cases (p.needsReboot = false) (callback p.onRebootRequired)
      { p with needsReboot := true } with ⟨-, hrun⟩ | ⟨-, hrun⟩
    · rw [hrun]
      cases hcallback : p.onRebootRequired with
      | none => rfl
      | some m =>
        obtain ⟨_, hvalue⟩ := (h.callback m hcallback).catching (fun _ => ()) p.runtime
        exact hvalue
    · rw [hrun]

/-- What a commit of a namespace counts is what it counts without the drafts of the fields that refuse. -/
theorem commitDrafts_value (hresponsive : Responsive env p) (hd : d ∈ p.decls) (h : SettersAnswer d p) :
    ∃ c q, commitDrafts env d p = (.value c, q) ∧ c.outcomes.filter CommitOutcome.applied = countedWithout d p := by
  obtain ⟨os, t, s', hharm⟩ := only_own_harm env hd (runHook_value hresponsive hd) h
  have hdecls : t.decls = p.decls := by
    have hkept : SameDecls p (applyDrafts d p).2 := by
      unfold applyDrafts
      refine Prog.Keeps.bind SameDecls.trans (runHook_decls d) (fun _ => ?_) p
      refine Prog.Keeps.bind SameDecls.trans (Prog.Keeps.get SameDecls.refl) fun _ => ?_
      exact Prog.Keeps.mapEach SameDecls.refl SameDecls.trans _ fun id _ => onNamespace_decls d _
    rwa [hharm.committed] at hkept
  obtain ⟨saved, u, hsave, -⟩ := saveNamespace_run (p := t) hresponsive.files (hdecls.symm ▸ decls_unique hd)
  refine ⟨{ decl := d, hadDraft := (p.stateOf d.id).hasAnyDraft, outcomes := os, saved }, u, ?_, hharm.counted⟩
  unfold commitDrafts
  rw [Prog.get_bind_run, Prog.bind_value hharm.committed, Prog.bind_value hsave]
  rfl

/-- What the commit of a namespace leaves as it is. -/
def SameRegistration (p q : Provisioner R F) : Prop :=
  q.decls = p.decls ∧ q.onRebootRequired = p.onRebootRequired

theorem SameRegistration.trans (p q t : Provisioner R F) (h : SameRegistration p q) (h' : SameRegistration q t) :
    SameRegistration p t := ⟨h'.1.trans h.1, h'.2.trans h.2⟩

theorem SameRegistration.refl (p : Provisioner R F) : SameRegistration p p := ⟨rfl, rfl⟩

namespace Way

theorem scope_inProcess (id : NamespaceId) (p : Provisioner R F) :
    (inProcess id).scope p = if id = 0 then p.decls else (p.find id).toList := rfl

theorem one_inProcess (id : NamespaceId) (d : NamespaceDecl R) :
    (inProcess id).one env d = commitDrafts env d >>= fun c =>
      Prog.when (c.reboot = true) (setRebootFlag true) >>= fun _ => pure c := rfl

theorem one_keeps (env : Env F) (way : Way) (d : NamespaceDecl R) : Prog.Keeps SameRegistration (way.one env d) := by
  have hdrafts : Prog.Keeps SameRegistration (commitDrafts env d) := fun p =>
    ⟨commitDrafts_decls env d p, (commitDrafts_flag env d p).2⟩
  cases way with
  | wire => exact hdrafts
  | inProcess =>
    refine Prog.Keeps.bind SameRegistration.trans hdrafts fun c => ?_
    refine Prog.Keeps.bind SameRegistration.trans ?_ fun _ => Prog.Keeps.pure SameRegistration.refl _
    exact Prog.Keeps.when SameRegistration.refl fun _ p => ⟨setRebootFlag_decls true p, (setRebootFlag_flag true p).2⟩

/-- Committing a namespace, in either way, comes back with the outcomes of the fields that are not refused. -/
theorem one_value (way : Way) (hresponsive : Responsive env p) (hd : d ∈ p.decls) (h : SettersAnswer d p) :
    ∃ c q, way.one env d p = (.value c, q) ∧ c.outcomes.filter CommitOutcome.applied = countedWithout d p := by
  obtain ⟨c, q, hrun, hcount⟩ := commitDrafts_value hresponsive hd h
  cases way with
  | wire => exact ⟨c, q, hrun, hcount⟩
  | inProcess id =>
    have hkept := commitDrafts_flag env d p
    have hdecls := commitDrafts_decls env d p
    rw [hrun] at hkept hdecls
    rw [one_inProcess, Prog.bind_value hrun]
    rcases Prog.when_run_cases (c.reboot = true) (setRebootFlag true) q with ⟨-, hwhen⟩ | ⟨-, hwhen⟩
    · have hflag := setRebootFlag_value (hresponsive.congr hdecls hkept.2) true
      exact ⟨c, _, by rw [Prog.bind_value (hwhen.trans (Prod.ext hflag rfl))]; rfl, hcount⟩
    · exact ⟨c, q, by rw [Prog.bind_value hwhen]; rfl, hcount⟩

/-- The commit of a namespace raises the flag: in process at once, on the wire not yet. -/
def raises (c : Committed R) : Way → Bool
  | .wire _ _ => false
  | .inProcess _ => c.reboot

/-- Committing a namespace raises the flag as its outcomes say. -/
theorem one_flag (way : Way) {c : Committed R} {q : Provisioner R F} (h : way.one env d p = (.value c, q)) :
    q.needsReboot = (p.needsReboot || way.raises c) := by
  have hkept := (commitDrafts_flag env d p).1
  cases way with
  | wire =>
    have hrun : commitDrafts env d p = (.value c, q) := h
    rw [hrun] at hkept
    exact hkept.trans (Bool.or_false _).symm
  | inProcess id =>
    rw [one_inProcess] at h
    obtain ⟨c', t, hrun, hrest⟩ := Prog.exists_of_bind_value h
    obtain ⟨_, u, hwhen, hpure⟩ := Prog.exists_of_bind_value hrest
    cases hpure
    rw [hrun] at hkept
    rw [← hkept]
    rcases Prog.when_run_cases (c.reboot = true) (setRebootFlag true) t with ⟨hreboot, heq⟩ | ⟨hreboot, heq⟩
    · have hflag := (setRebootFlag_flag true t).1
      rw [← heq, hwhen] at hflag
      exact hflag.trans (congrArg (t.needsReboot || ·) hreboot.symm)
    · rw [heq] at hwhen
      rw [show q = t from (congrArg Prod.snd hwhen).symm]
      exact ((congrArg (t.needsReboot || ·) (Bool.eq_false_iff.mpr hreboot)).trans (Bool.or_false _)).symm

/-- The flag after the commits of some namespaces. -/
theorem mapEach_flag (way : Way) {ds : List (NamespaceDecl R)} {cs : List (Committed R)} {q : Provisioner R F}
    (h : Prog.mapEach ds (way.one env) p = (.value cs, q)) :
    q.needsReboot = (p.needsReboot || cs.any way.raises) := by
  induction ds generalizing p cs with
  | nil => cases h; exact (Bool.or_false _).symm
  | cons d ds ih =>
    obtain ⟨c, t, hone, hrest⟩ := Prog.exists_of_bind_value h
    obtain ⟨cs', u, hmap, hpure⟩ := Prog.exists_of_bind_value hrest
    cases hpure
    rw [ih hmap, way.one_flag hone, List.any_cons, Bool.or_assoc]

end Way

/-- Whether a reboot is needed is told by the outcomes that were applied. -/
theorem contains_applied (os : List CommitOutcome) :
    (os.filter CommitOutcome.applied).contains .appliedReboot = os.contains .appliedReboot := by
  rw [Bool.eq_iff_iff, List.contains_iff_mem, List.contains_iff_mem, List.mem_filter]
  exact ⟨fun h => h.1, fun h => ⟨h, rfl⟩⟩

/-- The number that was applied is the sum over the namespaces. -/
theorem foldl_countCommitted_applied (report : Bool → Bool) (cs : List (Committed R)) (progress : CommitProgress R) :
    (cs.foldl (countCommitted report) progress).applied
      = progress.applied + (cs.map fun c => (c.outcomes.filter CommitOutcome.applied).length).sum := by
  have hcount : ∀ (outcomes : List CommitOutcome) (progress : CommitProgress R),
      (outcomes.foldl countOutcome progress).applied
        = progress.applied + (outcomes.filter CommitOutcome.applied).length := by
    intro outcomes
    induction outcomes with
    | nil => intro progress; rfl
    | cons x outcomes ih =>
      intro progress
      have hone : (countOutcome progress x).applied = progress.applied + if x.applied then 1 else 0 := by
        cases x <;> rfl
      rw [List.foldl_cons, ih, hone, List.filter_cons, Nat.add_assoc]
      split <;> simp [Nat.add_comm]
  induction cs generalizing progress with
  | nil => rfl
  | cons c cs ih =>
    have hone : (countCommitted report progress c).applied
        = progress.applied + (c.outcomes.filter CommitOutcome.applied).length := by
      unfold countCommitted
      dsimp only
      split <;> exact hcount c.outcomes progress
    rw [List.foldl_cons, ih, hone, List.map_cons, List.sum_cons, Nat.add_assoc]

/-- The commit of all namespaces in its scope, the flag behind it, and the answer. -/
theorem Way.commit_value (way : Way) (hresponsive : Responsive env p) {cs : List (Committed R)} {t : Provisioner R F}
    (h : Prog.mapEach (way.scope p) (way.one env) p = (.value cs, t)) :
    ∃ answer q, way.commit env p = (.value answer, q) ∧ (∃ b, q = (setRebootFlag b t).2)
      ∧ q.needsReboot = (p.needsReboot || cs.any Committed.reboot)
      ∧ way.Counts env q (cs.map fun c => (c.outcomes.filter CommitOutcome.applied).length).sum answer := by
  have hflag := way.mapEach_flag h
  have hkept : SameRegistration p t := by
    have := Prog.Keeps.mapEach SameRegistration.refl SameRegistration.trans (way.scope p)
      (fun d _ => way.one_keeps env d) p
    rwa [h] at this
  cases way with
  | wire seq payload =>
    let o := readOptions { namespaceFilter := true, includeState := true } payload
    let report : Bool → Bool := fun hadDraft => o.includeState && (o.hasFilter || hadDraft)
    let progress : CommitProgress R := cs.foldl (countCommitted report) {}
    have hraised := setRebootFlag_value (hresponsive.congr hkept.1 hkept.2) progress.anyReboot
    let q := (setRebootFlag progress.anyReboot t).2
    have hrun : opCommit env seq payload p = (.value (packResponse env Op.commit seq o.compress
        (commitBody env q o.includeState progress.applied progress.touched)), q) := by
      unfold opCommit
      simp only [commitNamespace_eq]
      rw [Prog.get_bind_run, Prog.bind_run, Prog.fold_eq_mapEach, Prog.bind_pure_run]
      have hmap : Prog.mapEach (named p o.hasFilter o.filter) (commitDrafts env) p = (.value cs, t) := h
      rw [hmap]
      simp only [Outcome.map]
      rw [Prog.bind_value (Prod.ext hraised rfl)]
      rfl
    refine ⟨_, q, Prog.bind_value hrun, ⟨progress.anyReboot, rfl⟩, ?_, progress.touched, ?_⟩
    · have hno : cs.any (Way.raises · (.wire seq payload)) = false := by simp [Way.raises]
      rw [hno, Bool.or_false] at hflag
      rw [show q.needsReboot = _ from (setRebootFlag_flag progress.anyReboot t).1, hflag,
        show progress.anyReboot = _ from foldl_countCommitted_anyReboot report cs {}, Bool.false_or]
    · rw [show progress.applied = _ from foldl_countCommitted_applied report cs {}, Nat.zero_add]
  | inProcess id =>
    have hsaved (d : NamespaceDecl R) (p : Provisioner R F) : commitInProcess env d p
        = ((Way.inProcess id).one env d >>= fun c => pure c.saved) p := by
      rw [commitInProcess_eq, Way.one_inProcess, Prog.bind_assoc_run]
      refine Prog.bind_congr_run _ (fun c t => ?_) p
      exact (Prog.bind_assoc_run _ (fun _ => pure c) (fun c => pure c.saved) t).symm
    have hrun : ∃ ok, Provisioner.commit env id p = (.value ok, t) := by
      unfold Provisioner.commit
      rw [Prog.get_bind_run]
      rw [Way.scope_inProcess] at h
      by_cases hzero : id = 0
      · rw [if_pos hzero] at h ⊢
        have hbody : (fun (ok : Bool) d => commitInProcess env d >>= fun saved => pure (saved && ok))
            = fun (ok : Bool) (d : NamespaceDecl R) =>
              (Way.inProcess id).one env d >>= fun c => pure (c.saved && ok) := by
          funext ok d q
          rw [Prog.bind_run, hsaved, ← Prog.bind_run, Prog.bind_assoc_run]
          rfl
        rw [hbody, Prog.fold_eq_mapEach, Prog.bind_value h]
        exact ⟨_, rfl⟩
      · rw [if_neg hzero] at h ⊢
        cases hfind : p.find id with
        | none =>
          rw [hfind] at h
          cases h
          exact ⟨false, rfl⟩
        | some d =>
          rw [hfind] at h
          obtain ⟨c, u, hone, hrest⟩ := Prog.exists_of_bind_value h
          cases hrest
          exact ⟨c.saved, (hsaved d p).trans (Prog.bind_value hone)⟩
    obtain ⟨ok, hrun⟩ := hrun
    exact ⟨none, t, Prog.bind_value hrun, ⟨false, rfl⟩, hflag, rfl⟩

theorem Way.scope_mem (way : Way) (hd : d ∈ way.scope p) : d ∈ p.decls := by
  cases way with
  | wire seq payload => exact commitScope_mem hd
  | inProcess id =>
    rw [Way.scope_inProcess] at hd
    split at hd
    · exact hd
    · exact List.mem_of_find?_eq_some (Option.mem_toList.mp hd)

/-- In a commit whose setters all come back with answers, a setter that refuses harms its own field only. All
namespaces in scope are committed, their other fields as if the fields whose setters refuse had had no drafts;
the flag goes up if one of those fields needs it, and the response counts only them. -/
theorem refusal_harms_only_itself (env : Env F) (way : Way) (p : Provisioner R F) (hresponsive : Responsive env p)
    (hanswer : ∀ x ∈ way.stages env p, SettersAnswer x.1 x.2) :
    (way.stages env p).map Prod.fst = way.scope p
      ∧ (∀ x ∈ way.stages env p, ∃ os q s', OnlyOwnHarm env x.1 x.2 os q s')
      ∧ ∃ answer q, way.commit env p = (.value answer, q)
        ∧ q.needsReboot = (p.needsReboot
          || (way.stages env p).any fun x => (countedWithout x.1 x.2).contains .appliedReboot)
        ∧ way.Counts env q ((way.stages env p).map fun x => (countedWithout x.1 x.2).length).sum answer := by
  have hstage : ∀ x ∈ way.stages env p, x.1 ∈ x.2.decls ∧ Responsive env x.2 := by
    intro x hx
    obtain ⟨hmem, hdecls, hcallback⟩ := stagesOf_mem SameRegistration.refl SameRegistration.trans
      (fun d => way.one_keeps env d) hx
    exact ⟨hdecls.symm ▸ way.scope_mem hmem, hresponsive.congr hdecls hcallback⟩
  have hvalues : ∀ x ∈ stagesOf (way.one env) (way.scope p) p, ∃ c t, way.one env x.1 x.2 = (.value c, t)
      ∧ c.outcomes.filter CommitOutcome.applied = countedWithout x.1 x.2 := fun x hx =>
    way.one_value (hstage x hx).2 (hstage x hx).1 (hanswer x hx)
  obtain ⟨hnames, cs, t, hrun, hcounts⟩ := mapEach_of_stages hvalues
  obtain ⟨answer, q, hcommit, -, hflag, hanswers⟩ := way.commit_value hresponsive hrun
  refine ⟨hnames, fun x hx => ?_, answer, q, hcommit, ?_, ?_⟩
  · exact only_own_harm env (hstage x hx).1 (runHook_value (hstage x hx).2 (hstage x hx).1) (hanswer x hx)
  · rw [hflag]
    congr 1
    have hany : cs.any Committed.reboot
        = (cs.map fun c => c.outcomes.filter CommitOutcome.applied).any fun os => os.contains .appliedReboot := by
      rw [List.any_map]
      exact congrArg cs.any (funext fun c => (contains_applied c.outcomes).symm)
    rw [hany, hcounts, List.any_map]
    rfl
  · have hsum := congrArg (fun l : List (List CommitOutcome) => (l.map List.length).sum) hcounts
    simp only [List.map_map] at hsum
    exact hsum ▸ hanswers

end Run

/-- A namespace with a field whose setter refuses every value, and one that waits for a reboot. -/
def tunerDecl : NamespaceDecl Unit where
  id := 1
  name := "tuner".toUTF8.toList
  fields :=
    [{ id := 10, name := "band".toUTF8.toList, type := .int, flags := ffLiveApply, defaultValue := .int 0,
       setter := some fun _ => pure false },
     { id := 11, name := "volume".toUTF8.toList, type := .int, flags := ffRebootRequired, defaultValue := .int 0 }]
  distinct := by decide

/-- The device with a draft of both. -/
def tuner : Provisioner Unit Unit where
  namespaces := [{ decl := tunerDecl, state :=
    { working := AList.singleton 10 (.int 4), draft := (AList.singleton 10 (.int 7)).insert 11 (.int 3) } }]
  storage := none
  started := true
  needsReboot := false
  schemaHash := 0
  runtime := ()
  distinct := List.nodup_singleton _

theorem tuner_responsive : Responsive bareEnv tuner where
  files := by constructor <;> intros <;> exact Prog.Answers.pure _
  hooks d hd hook hhook := by
    rw [List.mem_singleton.mp hd] at hhook
    cases hhook
  callback m hm := by cases hm

/-- The setters of the sample answer at every stage. -/
theorem tuner_answers (way : Way) (hway : way.scope tuner = [tunerDecl]) :
    ∀ x ∈ way.stages bareEnv tuner, SettersAnswer x.1 x.2 := by
  have hfield : ∀ id x, tunerDecl.Answered id x := by
    intro id x f v call htaken hcall
    rcases List.mem_cons.mp (NamespaceDecl.findField_mem (NamespaceDecl.taken_iff.mp htaken).1) with rfl | hrest
    · cases hcall
      exact ⟨false, rfl⟩
    · rw [List.mem_singleton.mp hrest] at hcall
      cases hcall
  have hall : ∀ ids x, tunerDecl.AllAnswered ids x := by
    intro ids
    induction ids with
    | nil => exact fun _ => trivial
    | cons id ids ih => exact fun x => ⟨hfield id x, ih _⟩
  intro x hx
  have hmem := (stagesOf_mem SameRegistration.refl SameRegistration.trans (fun d => way.one_keeps bareEnv d) hx).1
  rw [hway] at hmem
  unfold SettersAnswer
  rw [List.mem_singleton.mp hmem]
  exact hall _ _

/-- The device on the wire: one of the two drafts is counted, and it needs a reboot. -/
theorem refusal_harms_only_itself_tuner :
    ∃ answer q, (Way.wire 0 none).commit bareEnv tuner = (.value answer, q) ∧ q.needsReboot = true
      ∧ (Way.wire 0 none).Counts bareEnv q 1 answer := by
  obtain ⟨-, -, answer, q, hcommit, hflag, hcounts⟩ :=
    refusal_harms_only_itself bareEnv (.wire 0 none) tuner tuner_responsive (tuner_answers _ rfl)
  exact ⟨answer, q, hcommit, hflag, hcounts⟩

/-- A refused value becomes the working value of its field. -/
theorem refused_value_is_kept :
    ¬ ∀ (env : Env Unit) (way : Way) (p : Provisioner Unit Unit), Responsive env p →
      (∀ x ∈ way.stages env p, SettersAnswer x.1 x.2) →
      ∀ x ∈ way.stages env p, ∀ w ∈ refusalsAt x.1 x.2,
        ((way.commit env p).2.stateOf x.1.id).working.lookup w.field.id
          = (x.2.stateOf x.1.id).working.lookup w.field.id := by
  intro h
  have hkept : some (Value.int 7) = some (Value.int 4) :=
    h bareEnv (.wire 0 none) tuner tuner_responsive (tuner_answers _ rfl) (tunerDecl, tuner) List.mem_cons_self
      ⟨tunerDecl.fields.head (by decide), .int 7, ()⟩ List.mem_cons_self
  cases hkept

end MicroReticulum.Provisioning
