import Mathlib.Data.Nat.Basic
import Mathlib.Logic.Relation

/-!
# Routes towards one node

Nodes learn their routes towards one node, the home, from announces that the home makes and that others pass on. A
route is the neighbour it leads over, the time at which the announce was made that it was learned from, and a number
of hops. What a node says of an announce may be heard late, more than once, or never.

The next node of a route has a better one: of a later announce, or of the same announce at fewer hops (`Descends`).
`Progress` is what may happen to the routes and to what was said, and keeps that. So routes never lead in a circle
and end at the home, whatever order the announces come in (`Descends.acyclic`, `Descends.reaches_home`). A message on
its way while the routes change comes back to a node only behind an announce made later (`Trip.closer`).
-/

namespace MicroReticulum.Library.Routing

variable {N : Type*}

/-- A route towards the home. -/
structure Route (N : Type*) where
  next : N
  emitted : ℕ
  hops : ℕ

/-- It was learned from a later announce, or from the same one at fewer hops. -/
def Route.Better (r r' : Route N) : Prop := r'.emitted < r.emitted ∨ r'.emitted = r.emitted ∧ r.hops < r'.hops

/-- It is no worse than the word of an announce at a number of hops. -/
def Route.Covers (r : Route N) (emitted hops : ℕ) : Prop := emitted < r.emitted ∨ emitted = r.emitted ∧ r.hops ≤ hops

/-- It is the same route, or was learned from a later announce. -/
def Route.Renews (r r' : Route N) : Prop := r = r' ∨ r'.emitted < r.emitted

variable {r r' r'' : Route N} {emitted hops : ℕ}

theorem Route.Better.trans (h : r.Better r') (h' : r'.Better r'') : r.Better r'' := by
  unfold Route.Better at *
  omega

theorem Route.Better.irrefl (r : Route N) : ¬ r.Better r := by
  unfold Route.Better
  omega

theorem Route.Renews.better (h : r.Renews r') (hbetter : r'.Better r'') : r.Better r'' := by
  rcases h with rfl | hlater
  · exact hbetter
  · unfold Route.Better at *
    omega

theorem Route.Renews.covers (h : r.Renews r') (hcovers : r'.Covers emitted hops) : r.Covers emitted hops := by
  rcases h with rfl | hlater
  · exact hcovers
  · unfold Route.Covers at *
    omega

/-- Who has heard of an announce at more hops has the worse route. -/
theorem Route.Covers.better (h : r.Covers r'.emitted hops) (hless : hops < r'.hops) : r.Better r' := by
  unfold Route.Covers at h
  unfold Route.Better
  omega

/-! ## The network -/

/-- The routes of the nodes, and which of them have said of which announces that they know the home at which number
of hops. -/
structure Net (N : Type*) where
  routes : N → Option (Route N)
  said : N → ℕ → ℕ → Prop

variable (home : N)

/-- A route of `x` leads over `y`, which is not the home. -/
def Net.NextHop (net : Net N) (x y : N) : Prop := ∃ r, net.routes x = some r ∧ r.next = y ∧ y ≠ home

/-- The next node of a route has a better one. -/
def Net.Descends (net : Net N) : Prop :=
  ∀ x r, net.routes x = some r → r.next ≠ home → ∃ r', net.routes r.next = some r' ∧ r'.Better r

/-- Routes descend, and whoever has said something has a route that is no worse. -/
structure Net.Sound (net : Net N) : Prop where
  descends : net.Descends home
  backed : ∀ x e h, net.said x e h → ∃ r, net.routes x = some r ∧ r.Covers e h

/-- What may happen: a route stays, or gives way to that of a later announce; a new one leads home, or over a node that
has said that it knows the announce at fewer hops; and no node says more than it knows. -/
structure Progress (net net' : Net N) : Prop where
  keeps : ∀ x r, net.routes x = some r → ∃ r', net'.routes x = some r' ∧ r'.Renews r
  learns : ∀ x r', net'.routes x = some r' →
    net.routes x = some r' ∨ r'.next = home ∨ ∃ h, h < r'.hops ∧ net.said r'.next r'.emitted h
  backed : ∀ x e h, net'.said x e h → ∃ r, net'.routes x = some r ∧ r.Covers e h

variable {home} {net net' : Net N} {x y z : N} {k : ℕ}

/-- A network in which nothing is known yet. -/
theorem Net.Sound.of_unknown (hroutes : ∀ x, net.routes x = none) (hsaid : ∀ x e h, ¬ net.said x e h) :
    net.Sound home where
  descends x r hr := by rw [hroutes x] at hr; cases hr
  backed x e h hsays := absurd hsays (hsaid x e h)

theorem Net.Sound.progress (h : net.Sound home) (hstep : Progress home net net') : net'.Sound home where
  descends x r hr hnext := by
    have hbetter : ∃ r', net.routes r.next = some r' ∧ r'.Better r := by
      rcases hstep.learns x r hr with hold | hhome | ⟨hops, hless, hsaid⟩
      · exact h.descends x r hold hnext
      · exact absurd hhome hnext
      · obtain ⟨r', hr', hcovers⟩ := h.backed _ _ _ hsaid
        exact ⟨r', hr', hcovers.better hless⟩
    obtain ⟨r', hr', hbetter⟩ := hbetter
    obtain ⟨r'', hr'', hrenews⟩ := hstep.keeps _ _ hr'
    exact ⟨r'', hr'', hrenews.better hbetter⟩
  backed := hstep.backed

/-! ## Following the routes -/

namespace Net.Descends

variable (h : net.Descends home)

include h

theorem better_of_nextHop {r : Route N} (hr : net.routes x = some r) (hnext : net.NextHop home x y) :
    ∃ r', net.routes y = some r' ∧ r'.Better r := by
  obtain ⟨r', hr', rfl, hhome⟩ := hnext
  cases hr.symm.trans hr'
  exact h x r hr hhome

/-- Every further node along the routes has a better one. -/
theorem better_of_trail (htrail : Relation.TransGen (net.NextHop home) x y) :
    ∃ r r', net.routes x = some r ∧ net.routes y = some r' ∧ r'.Better r := by
  induction htrail with
  | single hnext =>
    obtain ⟨r, hr, hleads⟩ := hnext
    obtain ⟨r', hr', hbetter⟩ := h.better_of_nextHop hr ⟨r, hr, hleads⟩
    exact ⟨r, r', hr, hr', hbetter⟩
  | tail _ hnext ih =>
    obtain ⟨r, r', hr, hr', hbetter⟩ := ih
    obtain ⟨r'', hr'', hbetter'⟩ := h.better_of_nextHop hr' hnext
    exact ⟨r, r'', hr, hr'', hbetter'.trans hbetter⟩

/-- Routes do not lead in a circle. -/
theorem acyclic (x : N) : ¬ Relation.TransGen (net.NextHop home) x x := by
  intro htrail
  obtain ⟨r, r', hr, hr', hbetter⟩ := h.better_of_trail htrail
  cases hr.symm.trans hr'
  exact Route.Better.irrefl r hbetter

/-- Where announces are not made arbitrarily late, the routes end at the home. -/
theorem reaches_home {bound : ℕ} (hbound : ∀ x r, net.routes x = some r → r.emitted ≤ bound) {r : Route N}
    (hr : net.routes x = some r) :
    ∃ y r', Relation.ReflTransGen (net.NextHop home) x y ∧ net.routes y = some r' ∧ r'.next = home := by
  -- the announce gets later, or the number of hops smaller
  induction hlate : bound - r.emitted using Nat.strong_induction_on generalizing x r with
  | _ late ihlate =>
  induction hfar : r.hops using Nat.strong_induction_on generalizing x r with
  | _ far ihfar =>
  by_cases hhome : r.next = home
  case pos => exact ⟨x, r, .refl, hr, hhome⟩
  case neg =>
    obtain ⟨r', hr', hbetter⟩ := h x r hr hhome
    have hbounded := hbound _ _ hr'
    have hrest : ∃ y r'', Relation.ReflTransGen (net.NextHop home) r.next y ∧ net.routes y = some r''
        ∧ r''.next = home := by
      rcases hbetter with hlater | ⟨hsame, hfewer⟩
      · exact ihlate _ (by omega) hr' rfl
      · exact ihfar _ (by omega) hr' (by omega) rfl
    obtain ⟨y, r'', htrail, hr'', hends⟩ := hrest
    exact ⟨y, r'', .head ⟨r, hr, rfl, hhome⟩ htrail, hr'', hends⟩

end Net.Descends

/-! ## Messages on their way -/

/-- A message goes from `x` to another node in so many hops, each along a route of the moment, while the network goes
on. -/
inductive Trip (home : N) (net : Net N) (x : N) : ℕ → Net N → N → Prop
  | start : Trip home net x 0 net x
  | wait {k : ℕ} {net' net'' : Net N} {y : N} (h : Trip home net x k net' y) (hstep : Progress home net' net'') :
      Trip home net x k net'' y
  | hop {k : ℕ} {net' : Net N} {y z : N} (h : Trip home net x k net' y) (hnext : net'.NextHop home y z) :
      Trip home net x (k + 1) net' z

theorem Trip.sound (h : Trip home net x k net' y) (hsound : net.Sound home) : net'.Sound home := by
  induction h with
  | start => exact hsound
  | wait _ hstep ih => exact ih.progress hstep
  | hop _ _ ih => exact ih

/-- Every hop leads to a node whose route is of a later announce, or of the same one and shorter. -/
theorem Trip.closer (h : Trip home net x k net' y) (hsound : net.Sound home) {r : Route N}
    (hr : net.routes x = some r) :
    ∃ r', net'.routes y = some r' ∧ (r.emitted < r'.emitted ∨ r.emitted = r'.emitted ∧ r'.hops + k ≤ r.hops) := by
  induction h with
  | start => exact ⟨r, hr, .inr ⟨rfl, Nat.le_refl _⟩⟩
  | wait _ hstep ih =>
    obtain ⟨r', hr', hcloser⟩ := ih
    obtain ⟨r'', hr'', hrenews⟩ := hstep.keeps _ _ hr'
    refine ⟨r'', hr'', ?_⟩
    rcases hrenews with rfl | hlater
    · exact hcloser
    · omega
  | hop htrip hnext ih =>
    obtain ⟨r', hr', hcloser⟩ := ih
    obtain ⟨r'', hr'', hbetter⟩ := (htrip.sound hsound).descends.better_of_nextHop hr' hnext
    refine ⟨r'', hr'', ?_⟩
    unfold Route.Better at hbetter
    omega

/-- A node with a route has one all the time, the same or that of a later announce. -/
theorem Trip.renews (h : Trip home net x k net' y) {r : Route N} (hr : net.routes z = some r) :
    ∃ r', net'.routes z = some r' ∧ r'.Renews r := by
  induction h with
  | start => exact ⟨r, hr, .inl rfl⟩
  | wait _ hstep ih =>
    obtain ⟨r', hr', hrenews⟩ := ih
    obtain ⟨r'', hr'', hrenews'⟩ := hstep.keeps _ _ hr'
    refine ⟨r'', hr'', ?_⟩
    unfold Route.Renews at *
    rcases hrenews' with rfl | hlater
    · exact hrenews
    · rcases hrenews with rfl | hlater'
      · exact .inr hlater
      · exact .inr (Nat.lt_trans hlater' hlater)
  | hop _ _ ih => exact ih

/-- A message comes back to a node only if that has heard a later announce in the meantime. -/
theorem Trip.later_of_returns (h : Trip home net x k net' x) (hsound : net.Sound home) (hmoved : 0 < k)
    {r r' : Route N} (hr : net.routes x = some r) (hr' : net'.routes x = some r') : r.emitted < r'.emitted := by
  obtain ⟨s, hs, hcloser⟩ := h.closer hsound hr
  obtain ⟨s', hs', hrenews⟩ := h.renews hr
  cases hr'.symm.trans hs
  cases hr'.symm.trans hs'
  rcases hrenews with rfl | hlater
  · omega
  · exact hlater

end MicroReticulum.Library.Routing
