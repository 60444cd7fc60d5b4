import Mathlib.Data.List.Nodup
import GrammarNetwork.Description.Reader
import GrammarNetwork.Proofs.Texts

/-! Descriptions as JSON values. Every grammar that can be described is written as a value from which it is read
back: an element as its text where it has one, everything else as an object. -/

namespace GrammarNetwork

open Json

namespace Description

section Writing

def optionalField {α : Type} (key : String) (write : α → Value) (value : Option α) : Fields :=
  value.toList.map fun value => (key, write value)

def writeCommand (command : Command) : Value :=
  .string (commandText command)

mutual

def writeElement : Element → Value
  | ⟨.rule name precedence, _⟩ =>
      .object (("rule", .string name) :: optionalField "precedence" (fun level => .number (some level)) precedence)
  | ⟨.predicate code _ (some level), _⟩ =>
      .object [("predicate", .string code), ("precedence", .number (some level))]
  | ⟨.set items inverted, _⟩ => .object [("set", .array (writeElements items)), ("invert", .bool inverted)]
  | ⟨.block ⟨alternatives, suffix⟩, _⟩ =>
      .object (("block", .array (writeAlternatives alternatives)) ::
        optionalField "suffix" (fun suffix => .string (suffixText suffix)) suffix)
  | element => .string element.text

def writeElements : List Element → List Value
  | [] => []
  | element :: rest => writeElement element :: writeElements rest

def writeAlternatives : List Alternative → List Value
  | [] => []
  | ⟨elements, commands⟩ :: rest =>
      .object [("elements", .array (writeElements elements)), ("commands", .array (commands.map writeCommand))] ::
        writeAlternatives rest

end

def writeRule (rule : Rule) : Value :=
  .object ([("alts", .array (writeAlternatives rule.alternatives)), ("fragment", .bool rule.isFragment),
      ("mode", .string rule.mode), ("leftRecursive", .bool rule.leftRecursive)] ++
    optionalField "caseInsensitive" .bool rule.caseInsensitive)

def writeNames (names : List String) : Value :=
  .array (names.map .string)

/-- What the description declares, field by field. Rules of one name would share a key of the object of rules. -/
def toFields (description : Description) : Fields :=
  [("tokens", writeNames description.tokens), ("channels", writeNames description.channels),
      ("modes", writeNames description.modes),
      ("rules", .object (Fields.ofText (description.rules.map fun rule => (rule.name, writeRule rule))))] ++
    optionalField "kind" (fun kind => .string kind.name) description.kind ++
    optionalField "caseInsensitive" .bool description.caseInsensitive

def toJson (description : Description) : Value :=
  .object description.toFields

end Writing

end Description

mutual

/-- The element can be described: it has no place in a text, and it has a text of its own or is written as an
object. -/
def Element.Describable : Element → Prop
  | ⟨.rule _ precedence, position⟩ => position = none ∧ ∀ level, precedence = some level → isInt32 level = true
  | ⟨.predicate code index (some level), position⟩ =>
      position = none ∧ .predicate code index (some level) = Element.precedencePredicate level ∧ isInt32 level = true
  | ⟨.set items _, position⟩ => position = none ∧ DescribableElements items
  | ⟨.block ⟨alternatives, _⟩, position⟩ =>
      position = none ∧ alternatives ≠ [] ∧ DescribableAlternatives alternatives
  | ⟨form, position⟩ => position = none ∧ form.HasText

def DescribableElements : List Element → Prop
  | [] => True
  | element :: rest => element.Describable ∧ DescribableElements rest

def DescribableAlternatives : List Alternative → Prop
  | [] => True
  | ⟨elements, commands⟩ :: rest =>
      (DescribableElements elements ∧ ∀ command ∈ commands, command.Describable) ∧ DescribableAlternatives rest

end

structure Rule.Describable (rule : Rule) : Prop where
  nonempty : rule.alternatives ≠ []
  alternatives : DescribableAlternatives rule.alternatives
  position : rule.position = none

structure Description.Describable (description : Description) : Prop where
  rules : ∀ rule ∈ description.rules, rule.Describable
  names : (description.rules.map Rule.name).Nodup

namespace Description

section Fields

variable {fields : Fields} {key : String} {value : Value}

theorem put_of_notMem (absent : key ∉ fields.map Prod.fst) : fields.put key value = fields ++ [(key, value)] := by
  induction fields with
  | nil => rfl
  | cons field rest ih =>
      obtain ⟨name, old⟩ := field
      simp only [List.map_cons, List.mem_cons, not_or] at absent
      rw [Fields.put, if_neg (Ne.symm absent.1), ih absent.2, List.cons_append]

/-- Keys that are given once keep their order. -/
theorem ofText_of_nodup (fields : List (String × Value)) (distinct : (fields.map Prod.fst).Nodup) :
    Fields.ofText fields = fields := by
  have appends : ∀ (rest front : List (String × Value)), ((front ++ rest).map Prod.fst).Nodup →
      rest.foldl (fun result field => Fields.put result field.1 field.2) front = front ++ rest := by
    intro rest
    induction rest with
    | nil => simp
    | cons field rest ih =>
        intro front distinct
        have absent : field.1 ∉ front.map Prod.fst := by
          rw [List.map_append, List.nodup_append] at distinct
          intro member
          exact distinct.2.2 _ member field.1 (by simp) rfl
        rw [List.foldl_cons, put_of_notMem absent, ih _ (by simpa using distinct)]
        simp
  simpa [Fields.ofText] using appends fields [] (by simpa using distinct)

theorem readElement_of_block (found : fields.get? "block" = some value) :
    readElement (.object fields) = do
      let alternatives ← readAlternatives value
      let suffix ← readSuffixField fields
      return { form := .block { alternatives, suffix } } := by
  rw [readElement]
  split
  · rename_i same
    cases found.symm.trans same
    rfl
  · rename_i missing
    cases found.symm.trans missing

theorem readElement_of_set {values : List Value} (block : fields.get? "block" = none)
    (found : fields.get? "set" = some (.array values)) :
    readElement (.object fields) = do
      let elements ← readElements values
      return { form := .set elements (flag fields "invert") } := by
  rw [readElement]
  split
  · rename_i same
    cases block.symm.trans same
  · split
    · rename_i same
      cases found.symm.trans same
      rfl
    · rename_i other same
      exact absurd (Option.some.inj (found.symm.trans same)).symm (other values)
    · rename_i missing
      cases found.symm.trans missing

theorem readElement_of_reference (block : fields.get? "block" = none) (set : fields.get? "set" = none) :
    readElement (.object fields) = do return { form := ← readReference fields } := by
  rw [readElement]
  split
  · rename_i same
    cases block.symm.trans same
  · split
    · rename_i same
      cases set.symm.trans same
    · rename_i same
      cases set.symm.trans same
    · rfl

theorem readAlternative_of_elements {values : List Value} (found : fields.get? "elements" = some (.array values)) :
    readAlternative (.object fields) = do
      let elements ← readElements values
      let commands ← readCommands fields []
      return { elements, commands } := by
  rw [readAlternative]
  split
  · rename_i same
    cases found.symm.trans same
    rw [readAlternative]
    cases readElements values <;> rfl
  · rename_i missing
    cases found.symm.trans missing

end Fields

theorem readList_map {α : Type} {read : Value → Except DescriptionError α} {write : α → Value} :
    ∀ items : List α, (∀ item ∈ items, read (write item) = .ok item) → readList read (items.map write) = .ok items
  | [], _ => rfl
  | item :: rest, reads => by
      have first := reads item (by simp)
      have others := readList_map rest fun item member => reads item (by simp [member])
      rw [List.map_cons, readList, first, others]
      rfl

theorem readCommands_written {commands : List Command} (elements : Value) (inherited : List Command)
    (describable : ∀ command ∈ commands, command.Describable) :
    readCommands [("elements", elements), ("commands", .array (commands.map writeCommand))] inherited =
      .ok commands :=
  readList_map commands fun command member => readCommand_commandText (describable command member)

theorem readSuffixField_written (alternatives : Value) (suffix : Option Suffix) :
    readSuffixField (("block", alternatives) ::
      optionalField "suffix" (fun suffix => .string (suffixText suffix)) suffix) = .ok suffix := by
  cases suffix with
  | none => rfl
  | some suffix =>
      simp [readSuffixField, optionalField, Fields.get?, List.lookup_cons, readSuffix_suffixText]

theorem readReference_rule {precedence : Option Int} (name : String)
    (bounded : ∀ level, precedence = some level → isInt32 level = true) :
    readReference (("rule", .string name) ::
      optionalField "precedence" (fun level => .number (some level)) precedence) = .ok (.rule name precedence) := by
  cases precedence with
  | none => rfl
  | some level =>
      simp [readReference, readPrecedence, optionalField, Fields.get?, List.lookup_cons, Value.integer?, bounded level rfl]

theorem readReference_predicate {level : Int} (code : Value) (bounded : isInt32 level = true) :
    readReference [("predicate", code), ("precedence", .number (some level))] =
      .ok (Element.precedencePredicate level) := by
  simp [readReference, readPrecedence, Fields.get?, List.lookup_cons, Value.integer?, bounded]
  rfl

theorem readElement_text {form : Form} (written : form.HasText) :
    readElement (.string (Element.text ⟨form, none⟩)) = .ok ⟨form, none⟩ := by
  rw [readElement, readElementText_text none written]
  rfl

theorem readAlternatives_of_ne_nil {values : List Value} (nonempty : values ≠ []) :
    readAlternatives (.array values) = readAlternativeList values := by
  rw [readAlternatives]
  exact nonempty

theorem writeAlternatives_ne_nil {alternatives : List Alternative} (nonempty : alternatives ≠ []) :
    writeAlternatives alternatives ≠ [] := by
  obtain ⟨⟨elements, commands⟩, rest, rfl⟩ := List.exists_cons_of_ne_nil nonempty
  simp [writeAlternatives]

mutual

theorem readElement_writeElement : ∀ element : Element, element.Describable →
    readElement (writeElement element) = .ok element
  | ⟨.set items inverted, position⟩, describable => by
      obtain ⟨rfl, describable⟩ := describable
      rw [writeElement, readElement_of_set rfl rfl, readElements_writeElements items describable]
      rfl
  | ⟨.block ⟨alternatives, suffix⟩, position⟩, describable => by
      obtain ⟨rfl, nonempty, describable⟩ := describable
      rw [writeElement, readElement_of_block rfl, readAlternatives_of_ne_nil (writeAlternatives_ne_nil nonempty),
        readAlternativeList_writeAlternatives alternatives describable, readSuffixField_written]
      rfl
  | ⟨.rule name precedence, position⟩, describable => by
      obtain ⟨rfl, bounded⟩ := describable
      rw [writeElement, readElement_of_reference (by cases precedence <;> rfl) (by cases precedence <;> rfl),
        readReference_rule name bounded]
      rfl
  | ⟨.predicate code index (some level), position⟩, describable => by
      obtain ⟨rfl, same, bounded⟩ := describable
      rw [writeElement, readElement_of_reference rfl rfl, readReference_predicate _ bounded, same]
      rfl
  | ⟨.token _, position⟩, describable | ⟨.literal _, position⟩, describable | ⟨.charSet _, position⟩, describable
  | ⟨.range _ _, position⟩, describable | ⟨.wildcard, position⟩, describable | ⟨.action _ _, position⟩, describable
  | ⟨.predicate _ _ none, position⟩, describable => by
      obtain ⟨rfl, written⟩ := describable
      exact readElement_text written

theorem readElements_writeElements : ∀ elements : List Element, DescribableElements elements →
    readElements (writeElements elements) = .ok elements
  | [], _ => by rw [writeElements, readElements]
  | element :: rest, describable => by
      rw [writeElements, readElements, readElement_writeElement element describable.1,
        readElements_writeElements rest describable.2]
      rfl

theorem readAlternativeList_writeAlternatives : ∀ alternatives : List Alternative,
    DescribableAlternatives alternatives → readAlternativeList (writeAlternatives alternatives) = .ok alternatives
  | [], _ => by rw [writeAlternatives, readAlternativeList]
  | ⟨elements, commands⟩ :: rest, describable => by
      rw [writeAlternatives, readAlternativeList, readAlternative_of_elements rfl,
        readElements_writeElements elements describable.1.1, readCommands_written _ _ describable.1.2,
        readAlternativeList_writeAlternatives rest describable.2]
      rfl

end

theorem readRuleAlternatives_written {rule : Rule} (describable : rule.Describable) :
    readRuleAlternatives rule.name (.array (writeAlternatives rule.alternatives)) = .ok rule.alternatives := by
  rw [readRuleAlternatives, readAlternatives_of_ne_nil (writeAlternatives_ne_nil describable.nonempty),
    readAlternativeList_writeAlternatives _ describable.alternatives]

theorem readRule_writeRule {rule : Rule} (describable : rule.Describable) :
    readRule rule.name (writeRule rule) = .ok rule := by
  have alternatives := readRuleAlternatives_written describable
  have position := describable.position
  obtain ⟨name, body, isFragment, mode, caseInsensitive, leftRecursive, place⟩ := rule
  obtain rfl : place = none := position
  have reads : readRule name (writeRule ⟨name, body, isFragment, mode, caseInsensitive, leftRecursive, none⟩) =
      (readRuleAlternatives name (.array (writeAlternatives body))).bind fun alternatives =>
        .ok ⟨name, alternatives, isFragment, mode, caseInsensitive, leftRecursive, none⟩ := by
    cases caseInsensitive <;> rfl
  rw [reads, alternatives]
  rfl

theorem readRules_written : ∀ rules : List Rule, (∀ rule ∈ rules, rule.Describable) →
    readRules (rules.map fun rule => (rule.name, writeRule rule)) = .ok rules
  | [], _ => rfl
  | rule :: rest, describable => by
      have others := readRules_written rest fun rule member => describable rule (by simp [member])
      rw [List.map_cons, readRules, readRule_writeRule (describable rule (by simp)), others]
      rfl

section Reading

variable (description : Description)

theorem readKind_toFields : readKind description.toFields = .ok description.kind := by
  obtain ⟨kind, caseInsensitive, tokens, channels, modes, rules⟩ := description
  cases kind with
  | none => cases caseInsensitive <;> rfl
  | some kind => cases kind <;> rfl

theorem flag?_toFields : flag? description.toFields "caseInsensitive" = description.caseInsensitive := by
  obtain ⟨kind, caseInsensitive, tokens, channels, modes, rules⟩ := description
  cases kind <;> cases caseInsensitive <;> rfl

theorem readNames_written {fields : Fields} {key : String} {names : List String}
    (found : fields.get? key = some (writeNames names)) : readNames fields key = .ok names := by
  simp only [readNames, found, writeNames]
  exact readList_map names fun _ _ => rfl

end Reading

/-- A grammar that can be described is what its description says. -/
theorem ofJson_toJson {description : Description} (describable : description.Describable) :
    ofJson description.toJson = .ok description := by
  have keys : ((description.rules.map fun rule => (rule.name, writeRule rule)).map Prod.fst).Nodup := by
    simpa [Function.comp_def] using describable.names
  have found : Fields.get? description.toFields "rules" =
      some (.object (description.rules.map fun rule => (rule.name, writeRule rule))) := by
    rw [← ofText_of_nodup _ keys]
    rfl
  have tokens : readNames description.toFields "tokens" = .ok description.tokens := readNames_written rfl
  have channels : readNames description.toFields "channels" = .ok description.channels := readNames_written rfl
  have modes : readNames description.toFields "modes" = .ok description.modes := readNames_written rfl
  simp only [toJson, ofJson, readKind_toFields, found, readRules_written _ describable.rules, tokens, channels, modes,
    flag?_toFields]
  rfl

/-- A lexer whose texts are easily mistaken for others: a literal with a mark of a range in it, an action that ends
like a predicate, and a range that begins with a quote. -/
def tangled : Description where
  kind := some .lexer
  caseInsensitive := some true
  tokens := ["T"]
  channels := ["C"]
  modes := ["M"]
  rules := [
    { name := "A"
      alternatives := [
        { elements := [{ form := .literal "'\\'..'" }, { form := .action "x\x7d?" none }, { form := .wildcard }]
          commands := [⟨"pushMode", some "M", none⟩, ⟨"skip", none, none⟩] },
        {}]
      isFragment := true
      mode := "M"
      caseInsensitive := some false },
    { name := "b"
      alternatives := [
        { elements := [
            { form := .block {
                alternatives := [{ elements := [{ form := .rule "b" (some (-3)) }, { form := .token "A" }] }]
                suffix := some ⟨.star, false⟩ } },
            { form := .set [{ form := .range "'\\''" "'z'" }, { form := .charSet "[]]" }] true },
            { form := .predicate "y" 0 none },
            { form := Element.precedencePredicate 2 }] }]
      leftRecursive := true }]

theorem tangled_read : ofJson tangled.toJson = .ok tangled := by
  have literal : IsLiteral "'\\'..'" := by
    refine ⟨['\\', '\'', '.', '.'], by decide, ?_⟩
    intro before after same
    match before, same with
    | ['\\'], _ => rfl
    | _ :: _ :: _, same => simp [List.cons_eq_append_iff] at same
  have letter : isNameCharacter 'A' = true := by decide +kernel
  have upper : Unicode.isUppercase 'A' = true := by decide +kernel
  have token : IsTokenName "A" := ⟨by simpa using letter, by simpa using upper⟩
  have range : IsCharacter "'\\''" ∧ IsCharacter "'z'" := by decide
  have commands : ∀ command ∈ [Command.mk "pushMode" (some "M") none, ⟨"skip", none, none⟩], command.Describable := by
    intro command member
    simp only [List.mem_cons, List.not_mem_nil, or_false] at member
    rcases member with rfl | rfl
    · exact ⟨by decide, by decide, by decide +kernel, by rintro _ ⟨⟩; decide +kernel, rfl⟩
    · exact ⟨by decide, by decide, by decide +kernel, by rintro _ ⟨⟩, rfl⟩
  apply ofJson_toJson
  constructor
  · intro rule member
    simp only [tangled, List.mem_cons, List.not_mem_nil, or_false] at member
    rcases member with rfl | rfl
    · refine ⟨by simp, ⟨⟨?_, commands⟩, ⟨trivial, by simp⟩, trivial⟩, rfl⟩
      exact ⟨⟨rfl, literal⟩, ⟨rfl, rfl⟩, ⟨rfl, trivial⟩, trivial⟩
    · refine ⟨by simp, ⟨⟨?_, by simp⟩, trivial⟩, rfl⟩
      refine ⟨⟨rfl, by simp, ⟨⟨⟨rfl, ?_⟩, ⟨rfl, token⟩, trivial⟩, by simp⟩, trivial⟩, ?_, ⟨rfl, rfl, rfl⟩,
        ⟨rfl, rfl, by decide⟩, trivial⟩
      · rintro _ ⟨⟩
        decide
      · exact ⟨rfl, ⟨rfl, range⟩, ⟨rfl, [']'], by decide⟩, trivial⟩
  · decide

end Description

end GrammarNetwork
