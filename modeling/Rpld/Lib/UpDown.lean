import Rpld.Lib.ParentForest

/-!
Forwarding over parent pointers: a point passes a packet down an entry where it has one,
and up where it has none. Where entries point from a parent to its children and lead on
to where the packet belongs, no packet comes back to a point it has left, and it gets
there from every point from which the way up meets an entry.
-/

namespace UpDown

open ParentForest Relation

section

variable {ι : Type} {parent : ι → Option ι} {up entry : ι → ι → Prop} {here : ι → Prop}

inductive Forward (up entry : ι → ι → Prop) (here : ι → Prop) (point next : ι) : Prop
  | down (elsewhere : ¬ here point) (entered : entry point next)
  | up (elsewhere : ¬ here point) (without : ∀ below, ¬ entry point below) (rises : up point next)

inductive Arrives (entry : ι → ι → Prop) (here : ι → Prop) : ι → Prop
  | here {point : ι} (arrived : here point) : Arrives entry here point
  | via {point next : ι} (entered : entry point next) (arrives : Arrives entry here next) : Arrives entry here point

structure Leads (parent : ι → Option ι) (up entry : ι → ι → Prop) (here : ι → Prop) : Prop where
  acyclic : ∀ point, ¬ TransGen (Up parent) point point
  rises : ∀ point above, up point above → parent point = some above
  falls : ∀ point below, entry point below → parent below = some point
  arrives : ∀ point below, entry point below → Arrives entry here below

theorem forward_elsewhere {point next : ι} (forward : Forward up entry here point next) : ¬ here point := by
  cases forward with
  | down elsewhere => exact elsewhere
  | up elsewhere => exact elsewhere

theorem forward_down {point next below : ι} (entered : entry point below) (forward : Forward up entry here point next) :
    entry point next := by
  cases forward with
  | down _ taken => exact taken
  | up _ without => exact absurd entered (without below)

theorem entry_leads (leads : Leads parent up entry here) {point below : ι} (entered : entry point below) :
    here below ∨ ∃ next, entry below next := by
  cases leads.arrives point below entered with
  | here arrived => exact Or.inl arrived
  | via next _ => exact Or.inr ⟨_, next⟩

/-- Once down, always down: the points after one with an entry lie below it, and each of
them has an entry or is where the packet belongs. -/
theorem forwards_below (leads : Leads parent up entry here) {point last below : ι} (entered : entry point below)
    (path : TransGen (Forward up entry here) point last) :
    TransGen (Up parent) last point ∧ (here last ∨ ∃ next, entry last next) := by
  induction path with
  | single forward =>
      have taken := forward_down entered forward
      exact ⟨TransGen.single (leads.falls _ _ taken), entry_leads leads taken⟩
  | tail _ forward ih =>
      obtain ⟨under, arrived | ⟨next, onward⟩⟩ := ih
      · exact absurd arrived (forward_elsewhere forward)
      · have taken := forward_down onward forward
        exact ⟨TransGen.head (leads.falls _ _ taken) under, entry_leads leads taken⟩

theorem forwards_above (leads : Leads parent up entry here) {point last : ι} (elsewhere : ¬ here last)
    (without : ∀ below, ¬ entry last below) (path : TransGen (Forward up entry here) point last) :
    TransGen (Up parent) point last := by
  have neverDown : ∀ {earlier below : ι}, TransGen (Forward up entry here) earlier last → ¬ entry earlier below := by
    intro earlier below rest entered
    rcases (forwards_below leads entered rest).2 with arrived | ⟨next, onward⟩
    · exact elsewhere arrived
    · exact without next onward
  induction path using TransGen.head_induction_on with
  | single forward =>
      cases forward with
      | down _ entered => exact absurd entered (neverDown (TransGen.single (Forward.down ‹_› entered)))
      | up _ _ rises => exact TransGen.single (leads.rises _ _ rises)
  | head forward rest ih =>
      cases forward with
      | down elsewhere entered => exact absurd entered (neverDown (TransGen.head (Forward.down elsewhere entered) rest))
      | up _ _ rises => exact TransGen.head (leads.rises _ _ rises) ih

theorem forward_acyclic (leads : Leads parent up entry here) (point : ι) :
    ¬ TransGen (Forward up entry here) point point := by
  intro cycle
  obtain ⟨next, first, _⟩ := TransGen.head'_iff.mp cycle
  by_cases entered : ∃ below, entry point below
  · obtain ⟨below, entered⟩ := entered
    exact leads.acyclic point (forwards_below leads entered cycle).1
  · refine leads.acyclic point (forwards_above leads (forward_elsewhere first) ?_ cycle)
    intro below taken
    exact entered ⟨below, taken⟩

theorem nodup_of_acyclic {step : ι → ι → Prop} {path : List ι} (acyclic : ∀ point, ¬ TransGen step point point)
    (chain : path.IsChain step) : path.Nodup := by
  have along : path.IsChain (TransGen step) := chain.imp fun _ _ first => TransGen.single first
  refine (List.isChain_iff_pairwise.mp along).imp ?_
  intro first second path same
  subst same
  exact acyclic _ path

theorem forward_nodup (leads : Leads parent up entry here) {path : List ι}
    (chain : path.IsChain (Forward up entry here)) : path.Nodup :=
  nodup_of_acyclic (forward_acyclic leads) chain

theorem arrives_forward {point : ι} (arrives : Arrives entry here point) :
    ∃ last, ReflTransGen (Forward up entry here) point last ∧ here last := by
  induction arrives with
  | @here point arrived => exact ⟨point, ReflTransGen.refl, arrived⟩
  | @via point next entered _ ih =>
      by_cases arrived : here point
      · exact ⟨point, ReflTransGen.refl, arrived⟩
      · obtain ⟨last, path, there⟩ := ih
        exact ⟨last, ReflTransGen.head (Forward.down arrived entered) path, there⟩

theorem forward_arrives (leads : Leads parent up entry here) {point above below : ι}
    (rises : ReflTransGen up point above) (entered : entry above below) :
    ∃ last, ReflTransGen (Forward up entry here) point last ∧ here last := by
  have fromEntry : ∀ {start next : ι}, entry start next →
      ∃ last, ReflTransGen (Forward up entry here) start last ∧ here last := by
    intro start next taken
    exact arrives_forward (Arrives.via taken (leads.arrives _ _ taken))
  induction rises using ReflTransGen.head_induction_on with
  | refl => exact fromEntry entered
  | @head start next first _ ih =>
      by_cases arrived : here start
      · exact ⟨start, ReflTransGen.refl, arrived⟩
      · by_cases taken : ∃ below, entry start below
        · obtain ⟨other, taken⟩ := taken
          exact fromEntry taken
        · obtain ⟨last, path, there⟩ := ih
          refine ⟨last, ReflTransGen.head (Forward.up arrived ?_ first) path, there⟩
          intro other entered
          exact taken ⟨other, entered⟩

end

end UpDown
