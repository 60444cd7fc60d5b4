import GrammarNetwork.Proofs.Errands

/-! Places: for which elements and commands a construction remembers states. No two of a grammar are at the same
place, so that the state that is remembered for a place is the one that was made for it. -/

namespace GrammarNetwork

/-- What a state is remembered for: the element or the command at a place. -/
inductive Owner where
  | element (site : Site)
  | command (site : Site)
deriving DecidableEq

def Owner.site : Owner → Site
  | .element site => site
  | .command site => site

def Item.owner : Item → Owner
  | .element site _ => .element site
  | .command site _ => .command site

@[simp] theorem Item.site_owner (item : Item) : item.owner.site = item.site := by
  cases item <;> rfl

mutual

/-- What is inside the element at `site`, in the order in which it is built. The items of a set are not built one by
one. -/
def innerPlaces (site : Site) : Element → List Item
  | ⟨.block ⟨alternatives, _⟩, _⟩ => alternativePlaces site 0 alternatives
  | _ => []

/-- Each element of an alternative behind what is inside it. -/
def listPlaces (site : Site) (alternative : Nat) : Nat → List Element → List Item
  | _, [] => []
  | index, first :: rest =>
      innerPlaces (site.child alternative index) first ++
        (.element (site.child alternative index) first :: listPlaces site alternative (index + 1) rest)

def alternativePlaces (site : Site) : Nat → List Alternative → List Item
  | _, [] => []
  | index, ⟨elements, written⟩ :: rest =>
      listPlaces site index 0 elements ++
        (commandItems site index 0 written ++ alternativePlaces site (index + 1) rest)

end

/-- The elements and commands of the rule with this number. -/
def Rule.places (index : Nat) (rule : Rule) : List Item :=
  alternativePlaces ⟨index, []⟩ 0 rule.alternatives

/-- The elements and commands of the rules, the first of which has number `index`. -/
def rulePlaces (index : Nat) : List Rule → List Item
  | [] => []
  | rule :: rest => rule.places index ++ rulePlaces (index + 1) rest

/-- The elements and commands of a grammar for which states may be remembered. -/
def Grammar.places (grammar : Grammar) : List Item :=
  rulePlaces 0 grammar.rules.toList

theorem self_mem_elementItems (site : Site) (element : Element) :
    .element site element ∈ elementItems site element := by
  obtain ⟨form, position⟩ := element
  cases form with
  | block body =>
      obtain ⟨alternatives, suffix⟩ := body
      exact List.mem_cons_self
  | _ => exact List.mem_cons_self

-- What is built is part of what is written.
mutual

theorem innerPlaces_subset (site : Site) : ∀ (element : Element), innerPlaces site element ⊆ elementItems site element
  | ⟨.block ⟨alternatives, _⟩, _⟩ => List.subset_cons_of_subset _ (alternativePlaces_subset site 0 alternatives)
  | ⟨.token _, _⟩ | ⟨.rule _ _, _⟩ | ⟨.literal _, _⟩ | ⟨.charSet _, _⟩ | ⟨.range _ _, _⟩ | ⟨.set _ _, _⟩
  | ⟨.wildcard, _⟩ | ⟨.action _ _, _⟩ | ⟨.predicate _ _ _, _⟩ => List.nil_subset _

theorem listPlaces_subset (site : Site) (alternative index : Nat) : ∀ (elements : List Element),
    listPlaces site alternative index elements ⊆ listItems site alternative index elements
  | [] => List.nil_subset _
  | first :: rest => by
      have own := self_mem_elementItems (site.child alternative index) first
      have inner := innerPlaces_subset (site.child alternative index) first
      have later := listPlaces_subset site alternative (index + 1) rest
      rw [listPlaces, listItems]
      exact List.append_subset.mpr ⟨List.subset_append_of_subset_left _ inner,
        List.cons_subset.mpr ⟨List.mem_append_left _ own, List.subset_append_of_subset_right _ later⟩⟩

theorem alternativePlaces_subset (site : Site) (index : Nat) : ∀ (alternatives : List Alternative),
    alternativePlaces site index alternatives ⊆ alternativeItems site index alternatives
  | [] => List.nil_subset _
  | ⟨elements, written⟩ :: rest => by
      have listed := listPlaces_subset site index 0 elements
      have later := alternativePlaces_subset site (index + 1) rest
      rw [alternativePlaces, alternativeItems]
      exact List.append_subset.mpr ⟨List.subset_append_of_subset_left _ listed, List.subset_append_of_subset_right _
        (List.append_subset.mpr ⟨List.subset_append_left _ _, List.subset_append_of_subset_right _ later⟩)⟩

end

theorem places_subset_ruleItems {rule : Rule} : ∀ {rules : List Rule} {first index : Nat},
    rules[index]? = some rule → rule.places (first + index) ⊆ ruleItems first rules
  | _ :: _, _, 0, found => by
      cases found
      exact List.subset_append_of_subset_left _ (alternativePlaces_subset _ 0 _)
  | _ :: _, first, index + 1, found => by
      have later : rule.places (first + 1 + index) ⊆ _ := places_subset_ruleItems found
      rw [Nat.add_right_comm] at later
      exact List.subset_append_of_subset_right _ later

/-- The elements and commands of a rule for which states may be remembered are some of the grammar. -/
theorem Grammar.places_subset_items {grammar : Grammar} {index : Nat} {rule : Rule}
    (found : grammar.rules[index]? = some rule) : rule.places index ⊆ grammar.items := by
  rw [← Array.getElem?_toList] at found
  rw [← Nat.zero_add index]
  exact places_subset_ruleItems found

/-- The item is the element at `site` or inside it. -/
inductive Item.Within (site : Site) : Item → Prop
  | element (steps : List (Nat × Nat)) (element : Element) :
      Within site (.element { site with path := site.path ++ steps } element)
  | command (step : Nat × Nat) (steps : List (Nat × Nat)) (command : Command) :
      Within site (.command { site with path := site.path ++ step :: steps } command)

section Within

variable {site : Site} {alternative place : Nat} {item : Item}

theorem Item.Within.rule (within : item.Within site) : item.site.rule = site.rule := by
  cases within <;> rfl

/-- No command of a block is inside an element of the block. -/
theorem Item.Within.owner_ne (within : item.Within (site.child alternative place)) (other : Nat) :
    item.owner ≠ .command (site.child alternative other) := by
  intro same
  cases within with
  | element => cases same
  | command =>
      have lengths := congrArg (fun owner => owner.site.path.length) same
      simp [Item.owner, Owner.site, Site.child] at lengths

theorem within_own (site : Site) (element : Element) : (Item.element site element).Within site := by
  have own : Item.Within site _ := .element [] element
  simpa using own

theorem Item.Within.outer (within : item.Within (site.child alternative place)) : item.Within site := by
  cases within with
  | element steps element =>
      have inside : Item.Within site _ := .element ((alternative, place) :: steps) element
      simpa [Site.child] using inside
  | command step steps command =>
      have inside : Item.Within site _ := .command (alternative, place) (step :: steps) command
      simpa [Site.child] using inside

end Within

theorem mem_commandItems {site : Site} {alternative : Nat} {item : Item} : ∀ {written : List Command} {index : Nat},
    item ∈ commandItems site alternative index written →
    ∃ place command, index ≤ place ∧ item = .command (site.child alternative place) command
  | first :: rest, index, member => by
      rcases List.mem_cons.mp member with rfl | later
      · exact ⟨index, first, Nat.le_refl _, rfl⟩
      · obtain ⟨place, command, bound, same⟩ := mem_commandItems later
        exact ⟨place, command, Nat.le_of_succ_le bound, same⟩

/-- The item is inside the block at `site`, in an alternative from the one with number `index` on. -/
def Item.Inside (site : Site) (index : Nat) (item : Item) : Prop :=
  ∃ alternative place, index ≤ alternative ∧ (item.Within (site.child alternative place) ∨
    ∃ command, item = .command (site.child alternative place) command)

theorem Item.Inside.within {site : Site} {index : Nat} {item : Item} (inside : item.Inside site index) :
    item.Within site := by
  obtain ⟨alternative, place, _, within | ⟨command, rfl⟩⟩ := inside
  · exact within.outer
  · exact .command (alternative, place) [] command

mutual

theorem inside_innerPlaces {item : Item} : ∀ {element : Element} {site : Site}, item ∈ innerPlaces site element →
    item.Inside site 0
  | ⟨.block ⟨_, _⟩, _⟩, _, member => inside_alternativePlaces member

theorem within_listPlaces {item : Item} {alternative : Nat} : ∀ {elements : List Element} {site : Site} {index : Nat},
    item ∈ listPlaces site alternative index elements →
    ∃ place, index ≤ place ∧ item.Within (site.child alternative place)
  | first :: rest, site, index, member => by
      rcases List.mem_append.mp member with inner | other
      · exact ⟨index, Nat.le_refl _, (inside_innerPlaces inner).within⟩
      · rcases List.mem_cons.mp other with rfl | later
        · exact ⟨index, Nat.le_refl _, within_own _ first⟩
        · obtain ⟨place, bound, within⟩ := within_listPlaces later
          exact ⟨place, Nat.le_of_succ_le bound, within⟩

theorem inside_alternativePlaces {item : Item} : ∀ {alternatives : List Alternative} {site : Site} {index : Nat},
    item ∈ alternativePlaces site index alternatives → item.Inside site index
  | ⟨elements, written⟩ :: rest, site, index, member => by
      rcases List.mem_append.mp member with matched | other
      · obtain ⟨place, _, within⟩ := within_listPlaces matched
        exact ⟨index, place, Nat.le_refl _, Or.inl within⟩
      · rcases List.mem_append.mp other with run | later
        · obtain ⟨place, command, _, same⟩ := mem_commandItems run
          exact ⟨index, place, Nat.le_refl _, Or.inr ⟨command, same⟩⟩
        · obtain ⟨alternative, place, bound, inside⟩ := inside_alternativePlaces later
          exact ⟨alternative, place, Nat.le_of_succ_le bound, inside⟩

end

section Uniqueness

theorem nodup_map_append {first second : List Item} (front : (first.map Item.owner).Nodup)
    (back : (second.map Item.owner).Nodup)
    (apart : ∀ item ∈ first, ∀ other ∈ second, item.owner ≠ other.owner) :
    ((first ++ second).map Item.owner).Nodup := by
  rw [List.map_append, List.nodup_append]
  refine ⟨front, back, ?_⟩
  simpa [List.forall_mem_map] using apart

/-- The step that leads into the block at `site` on the way to the item. -/
def Item.step? (site : Site) (item : Item) : Option (Nat × Nat) :=
  item.site.path[site.path.length]?

theorem step?_eq_of_owner (site : Site) {item other : Item} (same : item.owner = other.owner) :
    item.step? site = other.step? site := by
  rw [Item.step?, Item.step?, ← Item.site_owner, same, Item.site_owner]

theorem Item.Within.step? {site : Site} {alternative place : Nat} {item : Item}
    (within : item.Within (site.child alternative place)) : item.step? site = some (alternative, place) := by
  cases within <;> simp [Item.step?, Item.site, Site.child]

theorem step?_command (site : Site) (alternative place : Nat) (command : Command) :
    (Item.command (site.child alternative place) command).step? site = some (alternative, place) := by
  simp [Item.step?, Item.site, Site.child]

theorem Item.Inside.step? {site : Site} {index : Nat} {item : Item} (inside : item.Inside site index) :
    ∃ alternative place, index ≤ alternative ∧ item.step? site = some (alternative, place) := by
  obtain ⟨alternative, place, bound, within | ⟨command, rfl⟩⟩ := inside
  · exact ⟨alternative, place, bound, within.step?⟩
  · exact ⟨alternative, place, bound, step?_command site alternative place command⟩

theorem nodup_commandItems (site : Site) (alternative : Nat) : ∀ (written : List Command) (index : Nat),
    ((commandItems site alternative index written).map Item.owner).Nodup
  | [], _ => .nil
  | first :: rest, index => by
      rw [commandItems, List.map_cons, List.nodup_cons]
      refine ⟨fun again => ?_, nodup_commandItems site alternative rest _⟩
      obtain ⟨other, later, same⟩ := List.mem_map.mp again
      obtain ⟨place, command, bound, rfl⟩ := mem_commandItems later
      have steps := step?_eq_of_owner site same
      rw [step?_command, step?_command] at steps
      cases steps
      omega

mutual

theorem nodup_innerPlaces (site : Site) : ∀ (element : Element), ((innerPlaces site element).map Item.owner).Nodup
  | ⟨.block ⟨alternatives, _⟩, _⟩ => nodup_alternativePlaces site 0 alternatives
  | ⟨.token _, _⟩ | ⟨.rule _ _, _⟩ | ⟨.literal _, _⟩ | ⟨.charSet _, _⟩ | ⟨.range _ _, _⟩ | ⟨.set _ _, _⟩
  | ⟨.wildcard, _⟩ | ⟨.action _ _, _⟩ | ⟨.predicate _ _ _, _⟩ => .nil

theorem nodup_listPlaces (site : Site) (alternative : Nat) : ∀ (index : Nat) (elements : List Element),
    ((listPlaces site alternative index elements).map Item.owner).Nodup
  | _, [] => .nil
  | index, first :: rest => by
      refine nodup_map_append (nodup_innerPlaces (site.child alternative index) first) ?_ ?_
      · rw [List.map_cons, List.nodup_cons]
        refine ⟨fun again => ?_, nodup_listPlaces site alternative (index + 1) rest⟩
        obtain ⟨other, later, same⟩ := List.mem_map.mp again
        obtain ⟨place, bound, within⟩ := within_listPlaces later
        have steps := step?_eq_of_owner site same
        rw [within.step?, (within_own _ first).step?] at steps
        cases steps
        omega
      · intro item inner other behind same
        obtain ⟨_, _, _, step⟩ := (inside_innerPlaces inner).step?
        rcases List.mem_cons.mp behind with rfl | later
        · rw [step?_eq_of_owner _ same] at step
          simp [Item.step?, Item.site] at step
        · obtain ⟨place, bound, within⟩ := within_listPlaces later
          have steps := step?_eq_of_owner site same
          rw [(inside_innerPlaces inner).within.step?, within.step?] at steps
          cases steps
          omega

theorem nodup_alternativePlaces (site : Site) : ∀ (index : Nat) (alternatives : List Alternative),
    ((alternativePlaces site index alternatives).map Item.owner).Nodup
  | _, [] => .nil
  | index, ⟨elements, written⟩ :: rest => by
      refine nodup_map_append (nodup_listPlaces site index 0 elements)
        (nodup_map_append (nodup_commandItems site index written 0)
          (nodup_alternativePlaces site (index + 1) rest) ?_) ?_
      · intro item run other later same
        obtain ⟨place, command, _, rfl⟩ := mem_commandItems run
        obtain ⟨alternative, _, bound, step⟩ := (inside_alternativePlaces later).step?
        rw [← step?_eq_of_owner site same, step?_command] at step
        cases step
        omega
      · intro item matched other behind same
        obtain ⟨place, _, within⟩ := within_listPlaces matched
        rcases List.mem_append.mp behind with run | later
        · obtain ⟨_, command, _, rfl⟩ := mem_commandItems run
          exact within.owner_ne _ same
        · obtain ⟨alternative, _, bound, step⟩ := (inside_alternativePlaces later).step?
          rw [← step?_eq_of_owner site same, within.step?] at step
          cases step
          omega

end

theorem rule_of_places {index : Nat} {rule : Rule} {item : Item} (member : item ∈ rule.places index) :
    item.site.rule = index := by
  have within : item.Within ⟨index, []⟩ := (inside_alternativePlaces member).within
  exact within.rule

theorem le_rule_of_rulePlaces {item : Item} : ∀ {rules : List Rule} {index : Nat},
    item ∈ rulePlaces index rules → index ≤ item.site.rule
  | rule :: rest, index, member => by
      rcases List.mem_append.mp member with here | later
      · exact Nat.le_of_eq (rule_of_places here).symm
      · exact Nat.le_of_succ_le (le_rule_of_rulePlaces later)

/-- The elements and commands of a grammar are all at different places. -/
theorem nodup_rulePlaces : ∀ (rules : List Rule) (index : Nat), ((rulePlaces index rules).map Item.owner).Nodup
  | [], _ => .nil
  | rule :: rest, index => by
      refine nodup_map_append (nodup_alternativePlaces ⟨index, []⟩ 0 rule.alternatives) (nodup_rulePlaces rest _) ?_
      intro item here other later same
      have own : item.site.rule = index := rule_of_places here
      have bound := le_rule_of_rulePlaces later
      rw [← Item.site_owner, ← same, Item.site_owner, own] at bound
      omega

end Uniqueness

/-- For what states are remembered. -/
def Construction.owners (construction : Construction) : List Owner :=
  construction.elementStates.map (fun entry => .element entry.1) ++
    construction.commandStates.map fun entry => .command entry.1

/-- States are remembered for these elements and commands at most, one for each, and what was remembered before still
is. -/
structure Remembers (owners : List Owner) (before after : Construction) : Prop where
  elements : before.elementStates ⊆ after.elementStates
  commands : before.commandStates ⊆ after.commandStates
  once : ∀ owner, after.owners.count owner ≤ owners.count owner + before.owners.count owner
  still : (∀ site, .element site ∉ owners) → after.elementStates = before.elementStates

namespace Remembers

variable {before middle after : Construction} {owners others : List Owner}

theorem of_same (elements : after.elementStates = before.elementStates)
    (commands : after.commandStates = before.commandStates) : Remembers [] before after where
  elements := elements ▸ List.Subset.refl _
  commands := commands ▸ List.Subset.refl _
  once owner := by simp [Construction.owners, elements, commands]
  still _ := elements

theorem same (remembers : Remembers [] before after) : after.elementStates = before.elementStates :=
  remembers.still fun _ listed => by cases listed

theorem trans (first : Remembers owners before middle) (second : Remembers others middle after) :
    Remembers (owners ++ others) before after where
  elements := List.Subset.trans first.elements second.elements
  commands := List.Subset.trans first.commands second.commands
  once owner := by
    have early := first.once owner
    have late := second.once owner
    rw [List.count_append]
    omega
  still none := by
    have early := first.still fun site listed => none site (List.mem_append_left _ listed)
    have late := second.still fun site listed => none site (List.mem_append_right _ listed)
    exact late.trans early

/-- There may be one more for which no state is remembered. -/
theorem more (remembers : Remembers owners before after) (owner : Owner) : Remembers (owner :: owners) before after where
  elements := remembers.elements
  commands := remembers.commands
  once other := Nat.le_trans (remembers.once other) (Nat.add_le_add_right List.count_le_count_cons _)
  still none := remembers.still fun site listed => none site (List.mem_cons_of_mem _ listed)

theorem element (before : Construction) (site : Site) (id : StateId) :
    Remembers [.element site] before { before with elementStates := (site, id) :: before.elementStates } where
  elements := List.subset_cons_self _ _
  commands := List.Subset.refl _
  once owner := by
    simp only [Construction.owners, List.map_cons, List.cons_append, List.count_cons, List.count_nil]
    omega
  still none := absurd (List.mem_singleton_self _) (none site)

theorem command (before : Construction) (site : Site) (id : StateId) :
    Remembers [.command site] before { before with commandStates := (site, id) :: before.commandStates } where
  elements := List.Subset.refl _
  commands := List.subset_cons_self _ _
  once owner := by
    simp only [Construction.owners, List.map_cons, List.count_append, List.count_cons, List.count_nil]
    omega
  still _ := rfl

end Remembers

/-- A value that is listed is found if its key is not listed twice. -/
theorem lookup_of_count {α : Type} {entries : List (Site × α)} {site : Site} {value : α}
    (listed : (site, value) ∈ entries) (once : (entries.map Prod.fst).count site ≤ 1) :
    entries.lookup site = some value := by
  obtain ⟨front, back, rfl⟩ := List.append_of_mem listed
  refine List.lookup_eq_some_iff.mpr ⟨front, back, rfl, fun entry early => ?_⟩
  rw [List.map_append, List.map_cons, List.count_append, List.count_cons_self] at once
  have absent : site ∉ front.map Prod.fst := List.count_eq_zero.mp (by omega)
  rw [bne_iff_ne]
  exact fun same => absent (same ▸ List.mem_map_of_mem early)

section Lookups

variable {construction : Construction} {site : Site} {id : StateId}

theorem lookup_elementStates (once : construction.owners.count (.element site) ≤ 1)
    (listed : (site, id) ∈ construction.elementStates) : construction.elementStates.lookup site = some id := by
  have fewer : (construction.elementStates.map Prod.fst).count site ≤
      ((construction.elementStates.map Prod.fst).map Owner.element).count (.element site) := List.count_le_count_map
  rw [List.map_map] at fewer
  rw [Construction.owners, List.count_append] at once
  exact lookup_of_count listed (Nat.le_trans fewer (Nat.le_trans (Nat.le_add_right _ _) once))

theorem lookup_commandStates (once : construction.owners.count (.command site) ≤ 1)
    (listed : (site, id) ∈ construction.commandStates) : construction.commandStates.lookup site = some id := by
  have fewer : (construction.commandStates.map Prod.fst).count site ≤
      ((construction.commandStates.map Prod.fst).map Owner.command).count (.command site) := List.count_le_count_map
  rw [List.map_map] at fewer
  rw [Construction.owners, List.count_append] at once
  exact lookup_of_count listed (Nat.le_trans fewer (Nat.le_trans (Nat.le_add_left _ _) once))

end Lookups

end GrammarNetwork
