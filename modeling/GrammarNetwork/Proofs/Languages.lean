import GrammarNetwork.Proofs.Words

/-! The language of a grammar: the least one where every rule has the words of its syntax tree. The sketch of
a syntax tree has the words of the tree. -/

namespace GrammarNetwork

open Computability

/-- The words of a block with this suffix whose alternatives have these words. -/
def blockWords (suffix : Option Suffix) (inner : Language Letter) : Language Letter :=
  match suffix with
  | none => inner
  | some ⟨.optional, _⟩ => 1 + inner
  | some ⟨.star, _⟩ => inner∗
  | some ⟨.plus, _⟩ => inner * inner∗

section Trees

variable (plan : Plan) (vocabulary : IntervalSet) (meanings : Meanings) (acts : Item → Option LexerAction)

/-- The words of what an element comes to that is no block, with the action that it runs. -/
def Leaf.words (action : Option LexerAction) : Leaf → Language Letter
  | .chain labels => (labels.map (Label.words vocabulary meanings action)).prod
  | .broken => 0

namespace Plan

/-- The words of a list of commands: what they do, one after the other. -/
def commandWords (site : Site) (alternative : Nat) : Nat → List Command → Language Letter
  | _, [] => 1
  | number, first :: rest =>
      ((plan.commandLabel? site.rule first).map
        (Label.words vocabulary meanings (acts (.command (site.child alternative number) first)))).getD 0 *
          commandWords site alternative (number + 1) rest

mutual

/-- The words of the element at `site`. -/
def elementWords (site : Site) : Element → Language Letter
  | ⟨.block ⟨alternatives, suffix⟩, _⟩ => blockWords suffix (alternativeWords site 0 alternatives)
  | element =>
      ((plan.leaf? site.rule element).map (Leaf.words vocabulary meanings (acts (.element site element)))).getD 0

/-- The words of elements one after the other. -/
def listWords (site : Site) (alternative : Nat) : Nat → List Element → Language Letter
  | _, [] => 1
  | number, first :: rest =>
      elementWords (site.child alternative number) first * listWords site alternative (number + 1) rest

/-- The words of alternatives, each of which ends with its commands. -/
def alternativeWords (site : Site) : Nat → List Alternative → Language Letter
  | _, [] => 0
  | number, ⟨elements, written⟩ :: rest =>
      listWords site number 0 elements * plan.commandWords vocabulary meanings acts site number 0 written +
        alternativeWords site (number + 1) rest

end

/-- The words of alternatives somewhere in the rule with number `index`, when it is left open what they run. -/
def plainWords (index : Nat) (alternatives : List Alternative) : Language Letter :=
  plan.alternativeWords vocabulary meanings (fun _ => none) ⟨index, []⟩ 0 alternatives

end Plan

end Trees

namespace Plan

variable {plan : Plan} {vocabulary : IntervalSet} {meanings larger : Meanings} {acts : Item → Option LexerAction}

theorem words_mono (le : meanings ≤ larger) (action : Option LexerAction) (label : Label) :
    label.words vocabulary meanings action ≤ label.words vocabulary larger action := by
  cases label with
  | call rule => exact le rule
  | _ => exact le_rfl

theorem leafWords_mono (le : meanings ≤ larger) (action : Option LexerAction) (leaf : Leaf) :
    leaf.words vocabulary meanings action ≤ leaf.words vocabulary larger action := by
  cases leaf with
  | broken => exact le_rfl
  | chain labels =>
      induction labels with
      | nil => exact le_rfl
      | cons label labels ih =>
          simp only [Leaf.words, List.map_cons, List.prod_cons]
          exact mul_le_mul' (words_mono le action label) ih

theorem commandWords_mono (le : meanings ≤ larger) (site : Site) (alternative : Nat) (written : List Command) :
    ∀ number, plan.commandWords vocabulary meanings acts site alternative number written ≤
      plan.commandWords vocabulary larger acts site alternative number written := by
  induction written with
  | nil => exact fun _ => le_rfl
  | cons first rest ih =>
      intro number
      refine mul_le_mul' ?_ (ih (number + 1))
      cases plan.commandLabel? site.rule first with
      | none => exact le_rfl
      | some label => exact words_mono le _ label

theorem blockWords_mono (suffix : Option Suffix) {inner outer : Language Letter} (le : inner ≤ outer) :
    blockWords suffix inner ≤ blockWords suffix outer := by
  unfold blockWords
  split
  · exact le
  · exact add_le_add_right le 1
  · exact kstar_mono le
  · exact mul_le_mul' le (kstar_mono le)

theorem leaf_mono (le : meanings ≤ larger) (action : Option LexerAction) (leaf : Option Leaf) :
    (leaf.map (Leaf.words vocabulary meanings action)).getD 0 ≤
      (leaf.map (Leaf.words vocabulary larger action)).getD 0 := by
  cases leaf with
  | none => exact le_rfl
  | some leaf => exact leafWords_mono le action leaf

mutual

theorem elementWords_mono (le : meanings ≤ larger) (site : Site) : ∀ (element : Element),
    plan.elementWords vocabulary meanings acts site element ≤ plan.elementWords vocabulary larger acts site element
  | ⟨.block ⟨alternatives, suffix⟩, _⟩ => blockWords_mono suffix (alternativeWords_mono le site 0 alternatives)
  | ⟨.token _, _⟩ | ⟨.rule _ _, _⟩ | ⟨.literal _, _⟩ | ⟨.charSet _, _⟩ | ⟨.range _ _, _⟩ | ⟨.set _ _, _⟩
  | ⟨.wildcard, _⟩ | ⟨.action _ _, _⟩ | ⟨.predicate _ _ _, _⟩ => leaf_mono le _ _

theorem listWords_mono (le : meanings ≤ larger) (site : Site) (alternative number : Nat) :
    ∀ (elements : List Element), plan.listWords vocabulary meanings acts site alternative number elements ≤
      plan.listWords vocabulary larger acts site alternative number elements
  | [] => le_rfl
  | first :: rest =>
      mul_le_mul' (elementWords_mono le (site.child alternative number) first)
        (listWords_mono le site alternative (number + 1) rest)

theorem alternativeWords_mono (le : meanings ≤ larger) (site : Site) (number : Nat) :
    ∀ (alternatives : List Alternative), plan.alternativeWords vocabulary meanings acts site number alternatives ≤
      plan.alternativeWords vocabulary larger acts site number alternatives
  | [] => le_rfl
  | ⟨elements, written⟩ :: rest =>
      add_le_add (mul_le_mul' (listWords_mono le site number 0 elements) (commandWords_mono le site number written 0))
        (alternativeWords_mono le site (number + 1) rest)

end

/-- The words that the rules get when those that they refer to have these words. -/
def ruleWords (plan : Plan) (vocabulary : IntervalSet) (acts : Item → Option LexerAction) (meanings : Meanings) :
    Meanings := fun index =>
  match plan.grammar.rules[index]? with
  | none => 0
  | some rule => plan.alternativeWords vocabulary meanings acts ⟨index, []⟩ 0 rule.alternatives

theorem ruleWords_mono : Monotone (plan.ruleWords vocabulary acts) := by
  intro meanings larger le index
  simp only [ruleWords]
  cases plan.grammar.rules[index]? with
  | none => exact le_rfl
  | some rule => exact alternativeWords_mono le ⟨index, []⟩ 0 rule.alternatives

/-- The language of a rule in the least solution of the rules, when the elements and commands that run something run
these actions. -/
def language (plan : Plan) (vocabulary : IntervalSet) (acts : Item → Option LexerAction) : Meanings :=
  OrderHom.lfp ⟨plan.ruleWords vocabulary acts, ruleWords_mono⟩

theorem ruleWords_language :
    plan.ruleWords vocabulary acts (plan.language vocabulary acts) = plan.language vocabulary acts :=
  OrderHom.map_lfp ⟨plan.ruleWords vocabulary acts, ruleWords_mono⟩

/-- The language of a rule when it is left open what runs. -/
def plainLanguage (plan : Plan) (vocabulary : IntervalSet) : Meanings :=
  plan.language vocabulary fun _ => none

theorem ruleWords_plainLanguage : plan.ruleWords vocabulary (fun _ => none) (plan.plainLanguage vocabulary) =
    plan.plainLanguage vocabulary :=
  ruleWords_language

theorem language_le (closed : plan.ruleWords vocabulary acts meanings ≤ meanings) :
    plan.language vocabulary acts ≤ meanings :=
  OrderHom.lfp_le ⟨plan.ruleWords vocabulary acts, ruleWords_mono⟩ closed

end Plan

section Sketches

variable {plan : Plan} {site : Site} {vocabulary : IntervalSet} {meanings : Meanings}

theorem Leaf.words_trail (action : Option LexerAction) (leaf : Leaf) :
    leaf.trail.words vocabulary meanings (fun _ _ => action) = leaf.words vocabulary meanings action := by
  cases leaf with
  | chain labels => exact Trail.words_chain vocabulary meanings action labels
  | broken => rfl

theorem Trail.words_ofBlock {suffix : Option Suffix} {trails : List Trail} {trail : Trail} (names : Naming)
    (drawn : Trail.ofBlock suffix trails = some trail) :
    trail.words vocabulary meanings names =
      blockWords suffix (trails.map (Trail.words vocabulary meanings names)).sum := by
  have stripped : ∀ other, (Ways.ofList (trails.map (Trail.strip other))).words vocabulary meanings names =
      (trails.map (Trail.words vocabulary meanings names)).sum := by
    intro other
    rw [Ways.words_ofList, List.map_map]
    congr 2
    funext trail
    exact trail.words_strip vocabulary meanings names other
  cases trails with
  | nil => cases drawn
  | cons first rest =>
      simp only [Trail.ofBlock] at drawn
      split at drawn
      · split at drawn
        · rename_i single
          cases drawn
          obtain rfl : rest = [] := by simpa using single
          simp [blockWords]
        · cases drawn
          simp only [Trail.words, Frame.words, blockWords, stripped, mul_one]
      all_goals
        cases drawn
        simp only [Trail.words, Frame.words, blockWords, stripped, mul_one]

/-- A sketch has no states that could tell the actions apart. -/
theorem words_sketchCommands (alternative : Nat) : ∀ {written : List Command} (number : Nat) {trails : List Trail},
    plan.sketchCommands site.rule written = some trails →
    (trails.map (Trail.words vocabulary meanings .blank)).prod =
      plan.commandWords vocabulary meanings (fun _ => none) site alternative number written
  | [], _, trails, drawn => by
      cases drawn
      rfl
  | first :: rest, number, trails, drawn => by
      simp only [Plan.sketchCommands, Option.bind_eq_bind, Option.bind_eq_some_iff,
        Option.map_eq_some_iff] at drawn
      obtain ⟨_, ⟨label, labelled, rfl⟩, more, later, same⟩ := drawn
      cases same
      simp [Plan.commandWords, labelled, Trail.words_chain, words_sketchCommands alternative (number + 1) later]

theorem words_assembleSketch {trails : List Trail} {alternative : Nat} {written : List Command} {trail : Trail}
    (drawn : plan.assembleSketch site.rule trails written = some trail) (opens : ∀ trail ∈ trails, trail.IsOpen) :
    trail.words vocabulary meanings .blank =
      (trails.map (Trail.words vocabulary meanings .blank)).prod *
        plan.commandWords vocabulary meanings (fun _ => none) site alternative 0 written := by
  have silent : Label.words vocabulary meanings none .epsilon = 1 := Label.words_of_passes rfl
  have body : (if trails.isEmpty then Trail.chain [.epsilon] else Trail.joinAll trails).words vocabulary meanings
      .blank = (trails.map (Trail.words vocabulary meanings .blank)).prod := by
    split
    · rename_i none
      obtain rfl : trails = [] := by simpa using none
      simp [Trail.words_chain, silent]
    · exact Trail.words_joinAll vocabulary meanings _ opens
  simp only [Plan.assembleSketch] at drawn
  split at drawn
  · rename_i none
    obtain rfl : written = [] := by simpa using none
    cases drawn
    rw [body]
    simp [Plan.commandWords]
  · obtain ⟨commands, sketched, rfl⟩ := Option.map_eq_some_iff.mp drawn
    rw [Trail.words_append, body,
      Trail.words_joinAll vocabulary meanings _ (Plan.opens_of_sketched (Plan.sketched_commands sketched)),
      words_sketchCommands _ _ sketched]

mutual

/-- The sketch of an element has the words of the element. -/
theorem words_sketch : ∀ {element : Element} {site : Site} {trail : Trail},
    plan.sketch site.rule element = some trail →
    trail.words vocabulary meanings .blank =
      plan.elementWords vocabulary meanings (fun _ => none) site element
  | ⟨.block ⟨alternatives, suffix⟩, _⟩, site, trail, drawn => by
      simp only [Plan.sketch, Option.bind_eq_bind, Option.bind_eq_some_iff] at drawn
      obtain ⟨trails, sketched, built⟩ := drawn
      rw [Trail.words_ofBlock _ built, words_sketchAlternatives sketched, Plan.elementWords]
  | ⟨.token _, _⟩, _, _, drawn | ⟨.rule _ _, _⟩, _, _, drawn | ⟨.literal _, _⟩, _, _, drawn
  | ⟨.charSet _, _⟩, _, _, drawn | ⟨.range _ _, _⟩, _, _, drawn | ⟨.set _ _, _⟩, _, _, drawn
  | ⟨.wildcard, _⟩, _, _, drawn | ⟨.action _ _, _⟩, _, _, drawn | ⟨.predicate _ _ _, _⟩, _, _, drawn => by
      obtain ⟨leaf, found, rfl⟩ := Option.map_eq_some_iff.mp drawn
      simp only [Plan.elementWords, found, Option.map_some, Option.getD_some]
      exact leaf.words_trail none

theorem words_sketchList {alternative : Nat} : ∀ {elements : List Element} {site : Site} {number : Nat}
    {trails : List Trail}, plan.sketchList site.rule elements = some trails →
    (trails.map (Trail.words vocabulary meanings .blank)).prod =
      plan.listWords vocabulary meanings (fun _ => none) site alternative number elements
  | [], _, _, trails, drawn => by
      cases drawn
      rfl
  | first :: rest, site, number, trails, drawn => by
      simp only [Plan.sketchList, Option.bind_eq_bind, Option.bind_eq_some_iff] at drawn
      obtain ⟨trail, sketched, more, later, same⟩ := drawn
      cases same
      have head : plan.sketch (site.child alternative number).rule first = some trail := sketched
      rw [List.map_cons, List.prod_cons, words_sketch head, words_sketchList later, Plan.listWords]

theorem words_sketchAlternatives : ∀ {alternatives : List Alternative} {site : Site} {number : Nat}
    {trails : List Trail}, plan.sketchAlternatives site.rule alternatives = some trails →
    (trails.map (Trail.words vocabulary meanings .blank)).sum =
      plan.alternativeWords vocabulary meanings (fun _ => none) site number alternatives
  | [], _, _, trails, drawn => by
      cases drawn
      rfl
  | ⟨elements, written⟩ :: rest, site, number, trails, drawn => by
      simp only [Plan.sketchAlternatives, Option.bind_eq_bind, Option.bind_eq_some_iff] at drawn
      obtain ⟨pieces, listed, trail, assembled, more, later, same⟩ := drawn
      cases same
      rw [List.map_cons, List.sum_cons,
        words_assembleSketch assembled (Plan.opens_of_sketched (Plan.sketched_list listed)),
        words_sketchList listed, words_sketchAlternatives later, Plan.alternativeWords]

end

theorem words_plain {index : Nat} {alternatives : List Alternative} {trails : List Trail}
    (drawn : plan.sketchAlternatives index alternatives = some trails) :
    (trails.map (Trail.words vocabulary meanings .blank)).sum =
      plan.plainWords vocabulary meanings index alternatives := by
  have inner : plan.sketchAlternatives (Site.rule ⟨index, []⟩) alternatives = some trails := drawn
  exact words_sketchAlternatives inner

theorem words_sketchBody {index : Nat} {rule : Rule} {trail : Trail}
    (drawn : plan.sketchBody index rule.body = some trail) :
    trail.words vocabulary meanings .blank =
      plan.plainWords vocabulary meanings index rule.alternatives := by
  simp only [Plan.sketchBody, Option.bind_eq_bind, Option.bind_eq_some_iff] at drawn
  obtain ⟨trails, sketched, built⟩ := drawn
  rw [Trail.words_ofBlock _ built, words_plain sketched]
  rfl

end Sketches

end GrammarNetwork
