import GrammarNetwork.Proofs.Growth

/-! Trails one after the other: what appending and joining do to the layout, and that the construction of a
sequence follows them. -/

namespace GrammarNetwork

namespace Trail

theorem enter_append (next : Trail) (target : Option StateId) : ∀ (trail : Trail),
    (trail.append next).enter target = trail.enter (next.enter target)
  | .done => by simp [append]
  | .step _ _ _ => rfl
  | .gap _ _ => rfl
  | .block _ _ _ _ _ => rfl

theorem first?_append (next : Trail) : ∀ (trail : Trail),
    (trail.append next).first? = trail.first?.or next.first?
  | .done => by simp [append, first?]
  | .step _ _ _ => rfl
  | .gap _ _ => rfl
  | .block _ _ _ _ _ => rfl

theorem last?_append (next : Trail) : ∀ (trail : Trail),
    (trail.append next).last? = next.last?.or trail.last?
  | .done => by simp [append, last?]
  | .step _ _ rest => by simp [append, last?, last?_append next rest]
  | .gap _ rest => by simp [append, last?, last?_append next rest]
  | .block _ _ _ _ rest => by simp [append, last?, last?_append next rest]

theorem layout_append (starts : Array StateId) (rule : Option Nat) (next : Trail)
    (target : Option StateId) : ∀ (trail : Trail),
    (trail.append next).layout starts rule target =
      trail.layout starts rule (next.enter target) ++ next.layout starts rule target
  | .done => rfl
  | .step _ _ rest => by
      simp [append, layout, layout_append starts rule next target rest, enter_append]
  | .gap _ rest => by simp [append, layout, layout_append starts rule next target rest]
  | .block _ _ _ _ rest => by
      simp [append, layout, layout_append starts rule next target rest, enter_append]

theorem ids_append (next : Trail) : ∀ (trail : Trail), (trail.append next).ids = trail.ids ++ next.ids
  | .done => rfl
  | .step _ _ rest => by simp [append, ids, ids_append next rest]
  | .gap _ rest => by simp [append, ids, ids_append next rest]
  | .block _ _ _ _ rest => by simp [append, ids, ids_append next rest]

theorem labels_append (next : Trail) : ∀ (trail : Trail),
    (trail.append next).labels = trail.labels ++ next.labels
  | .done => rfl
  | .step _ _ rest => by simp [append, labels, labels_append next rest]
  | .gap _ rest => by simp [append, labels, labels_append next rest]
  | .block _ _ _ _ rest => by simp [append, labels, labels_append next rest]

theorem blocks_append (kind : Frame → Bool) (next : Trail) : ∀ (trail : Trail),
    (trail.append next).blocks kind = trail.blocks kind ++ next.blocks kind
  | .done => rfl
  | .step _ _ rest => by simp [append, blocks, blocks_append kind next rest]
  | .gap _ rest => by simp [append, blocks, blocks_append kind next rest]
  | .block _ _ _ _ rest => by simp [append, blocks, blocks_append kind next rest]

theorem IsOpen.append {next : Trail} (opens : next.IsOpen) : ∀ (trail : Trail), (trail.append next).IsOpen
  | .done => opens
  | .step _ _ rest => Or.inr (IsOpen.append opens rest)
  | .gap _ rest => IsOpen.append opens rest
  | .block _ _ _ _ rest => Or.inr (IsOpen.append opens rest)

theorem IsOpen.first? : ∀ {trail : Trail}, trail.IsOpen → ∃ id, trail.first? = some id
  | .step source _ _, _ => ⟨source, rfl⟩
  | .gap source _, _ => ⟨source, rfl⟩
  | .block frame start _ _ _, _ => ⟨frame.entry start, rfl⟩

theorem last?_eq_none : ∀ {trail : Trail}, trail.last? = none ↔ trail = .done
  | .done => by simp [last?]
  | .step _ _ _ => by simp [last?]
  | .gap _ _ => by simp [last?]
  | .block _ _ _ _ _ => by simp [last?]

theorem IsOpen.last? {trail : Trail} (opens : trail.IsOpen) {id : StateId} {other : Option StateId}
    (last : trail.last?.or other = some id) : trail.last? = some id := by
  cases found : trail.last? with
  | none =>
      rw [last?_eq_none] at found
      subst found
      exact opens.elim
  | some here => simpa [found] using last

theorem IsOpen.enter {trail : Trail} (opens : trail.IsOpen) (next other : Option StateId) :
    trail.enter next = trail.enter other := by
  obtain ⟨first, found⟩ := opens.first?
  rw [enter_of_first? found, enter_of_first? found]

theorem single?_eq_some {trail : Trail} {source : StateId} {label : Label} :
    trail.single? = some (source, label) ↔
      ∃ target last, trail = .step source label (.step target last .done) := by
  unfold single?
  split
  · simp
  · rename_i other
    simp only [reduceCtorEq, false_iff, not_exists]
    rintro target last rfl
    exact other source label target last rfl

theorem Frame.link (rule : Option Nat) (frame : Frame) (start exit target : StateId)
    (entries : List StateId) (unique : (start :: exit :: frame.loopIds).Nodup) :
    (frame.states rule start exit entries none).modify (frame.outlet exit) (State.extend target) =
      frame.states rule start exit entries (some target) := by
  cases frame <;>
    simp_all [Frame.states, Frame.outlet, Frame.loopIds, Frame.loopStates, Frame.exitState,
      Frame.exitTargets, Frame.startState, State.extend, eq_comm]

/-- Leading the end of an open trail on gives the layout of the trail that goes on there. -/
theorem link (starts : Array StateId) (rule : Option Nat) {id : StateId} (target : StateId) :
    ∀ {trail : Trail}, trail.IsOpen → trail.ids.Nodup → trail.last? = some id →
    (trail.layout starts rule none).modify id (State.extend target) = trail.layout starts rule (some target)
  | .step source label rest, opens, unique, last => by
      simp only [ids, List.nodup_cons] at unique
      rcases opens with ⟨ends, rfl⟩ | opens
      · rw [first?_eq_none] at ends
        subst ends
        obtain rfl : source = id := by simpa [last?] using last
        simp [layout, State.extend]
      · have inside := opens.last? last
        have different : source ≠ id := fun same => unique.1 (same ▸ last?_mem inside)
        simp [layout, different, link starts rule target opens unique.2 inside,
          opens.enter none (some target)]
  | .gap source rest, opens, unique, last => by
      simp only [ids, List.nodup_cons] at unique
      have opens : rest.IsOpen := opens
      have inside := opens.last? last
      have different : source ≠ id := fun same => unique.1 (same ▸ last?_mem inside)
      simp [layout, different, link starts rule target opens unique.2 inside]
  | .block frame start exit ways rest, opens, unique, last => by
      obtain ⟨around, _, restUnique, apart, between⟩ := nodup_block.mp unique
      rcases opens with ends | opens
      · rw [first?_eq_none] at ends
        subst ends
        obtain rfl : frame.outlet exit = id := by simpa [last?] using last
        have elsewhere : frame.outlet exit ∉ (ways.layout starts rule exit).ids := by
          rw [Ways.ids_layout]
          exact (apart _ (outlet_mem frame start exit)).1
        simp [layout, Frame.link rule frame start exit target _ around,
          Heap.modify_of_notMem elsewhere]
      · have inside := opens.last? last
        have member := last?_mem inside
        have outside : id ∉
            (frame.states rule start exit (ways.entries exit) (rest.enter (some target))).ids := by
          rw [Frame.ids_states]
          exact fun outer => (apart id outer).2 member
        have elsewhere : id ∉ (ways.layout starts rule exit).ids := by
          rw [Ways.ids_layout]
          exact fun other => between id other member
        simp [layout, Heap.modify_of_notMem outside, Heap.modify_of_notMem elsewhere,
          link starts rule target opens restUnique inside, opens.enter none (some target)]

theorem first?_join {trail : Trail} {id : StateId} (found : trail.first? = some id) (next : Trail) :
    (trail.join next).first? = some id := by
  unfold join
  split
  · rename_i source label single
    obtain ⟨_, _, rfl⟩ := single?_eq_some.mp single
    exact found
  · simp [first?_append, found]

theorem last?_join {next : Trail} {id : StateId} (found : next.last? = some id) (trail : Trail) :
    (trail.join next).last? = some id := by
  unfold join
  split
  · simp [last?, found]
  · simp [last?_append, found]

theorem IsOpen.join {next : Trail} (opens : next.IsOpen) (trail : Trail) : (trail.join next).IsOpen := by
  unfold Trail.join
  split
  · exact Or.inr opens
  · exact opens.append trail

theorem blocks_join (kind : Frame → Bool) (trail next : Trail) :
    (trail.join next).blocks kind = trail.blocks kind ++ next.blocks kind := by
  unfold join
  split
  · rename_i source label single
    obtain ⟨_, _, rfl⟩ := single?_eq_some.mp single
    simp [blocks]
  · exact blocks_append kind next trail

theorem labels_join {label : Label} {trail next : Trail} (member : label ∈ (trail.join next).labels) :
    label ∈ trail.labels ∨ label ∈ next.labels := by
  unfold join at member
  split at member
  · rename_i source first single
    obtain ⟨_, _, rfl⟩ := single?_eq_some.mp single
    simp only [labels, List.mem_cons] at member ⊢
    exact member.imp_left Or.inl
  · rw [labels_append] at member
    exact List.mem_append.mp member

/-- The layout of the first of two trails that are joined, where the second begins at `target`. -/
def front (starts : Array StateId) (rule : Option Nat) (trail : Trail) (target : StateId) : Heap :=
  match trail.single? with
  | some (source, label) => [(source, { rule, kind := .basic, transitions := [label.edge starts target] })]
  | none => trail.layout starts rule (some target)

theorem layout_join (starts : Array StateId) (rule : Option Nat) (trail : Trail) {next : Trail}
    {target : StateId} (first : next.first? = some target) :
    (trail.join next).layout starts rule none =
      trail.front starts rule target ++ next.layout starts rule none := by
  have entered : next.enter none = some target := enter_of_first? first none
  unfold join front
  cases trail.single? with
  | none => simp [layout_append, entered]
  | some found => simp [layout, entered]

/-- The trails one after the other. -/
def joinAll : List Trail → Trail
  | [] => .done
  | [trail] => trail
  | trail :: next :: rest => trail.join (joinAll (next :: rest))

theorem first?_joinAll {trail : Trail} {id : StateId} (found : trail.first? = some id)
    (trails : List Trail) : (joinAll (trail :: trails)).first? = some id := by
  cases trails with
  | nil => exact found
  | cons next rest => exact first?_join found _

/-- The layout of trails that lead nowhere yet. -/
def spread (starts : Array StateId) (rule : Option Nat) (trails : List Trail) : Heap :=
  trails.flatMap fun trail => trail.layout starts rule none

@[simp] theorem spread_nil (starts : Array StateId) (rule : Option Nat) : spread starts rule [] = [] := rfl

@[simp] theorem spread_cons (starts : Array StateId) (rule : Option Nat) (trail : Trail)
    (trails : List Trail) :
    spread starts rule (trail :: trails) = trail.layout starts rule none ++ spread starts rule trails := rfl

/-- The piece of a network between the two states of a handle is laid out as the trail says, and its end
can be led on. -/
structure Fits (count : Nat) (trail : Trail) (piece : Handle) : Prop where
  first : trail.first? = some piece.left
  last : trail.last? = some piece.right
  opens : trail.IsOpen
  callsBelow : trail.CallsBelow count

theorem Fits.join {count : Nat} {trail next : Trail} {left right : Handle} (first : trail.Fits count left)
    (second : next.Fits count right) : (trail.join next).Fits count ⟨left.left, right.right⟩ where
  first := first?_join first.first next
  last := last?_join second.last trail
  opens := second.opens.join trail
  callsBelow label member :=
    (labels_join member).elim (first.callsBelow label) (second.callsBelow label)

theorem Fits.append {count : Nat} {trail next : Trail} {left right : Handle}
    (first : trail.Fits count left) (second : next.Fits count right) :
    (trail.append next).Fits count ⟨left.left, right.right⟩ where
  first := by simp [first?_append, first.first]
  last := by simp [last?_append, second.last]
  opens := second.opens.append trail
  callsBelow label member := by
    rw [labels_append] at member
    exact (List.mem_append.mp member).elim (first.callsBelow label) (second.callsBelow label)

section Trivial

variable {network : Network} {starts : Array StateId} {rule : Option Nat}

/-- A basic state that is both the first and the last of an open trail is all there is of it. -/
theorem eq_step_of_first?_last? {trail : Trail} {id : StateId} {state : State} (opens : trail.IsOpen)
    (unique : trail.ids.Nodup) (holds : network.Holds (trail.layout starts rule none))
    (first : trail.first? = some id) (last : trail.last? = some id)
    (found : network.state? id = some state) (basic : state.kind = .basic) :
    ∃ label, trail = .step id label .done := by
  cases trail with
  | done => cases first
  | step source label rest =>
      cases first
      rcases opens with ⟨ends, _⟩ | opens
      · exact ⟨label, by rw [first?_eq_none.mp ends]⟩
      · exact absurd (last?_mem (opens.last? last)) (List.nodup_cons.mp unique).1
  | gap source rest =>
      cases first
      have opens : rest.IsOpen := opens
      exact absurd (last?_mem (opens.last? last)) (List.nodup_cons.mp unique).1
  | block frame start exit ways rest =>
      cases first
      simp only [layout, Network.holds_append] at holds
      have member := entry_mem frame start exit
      rw [← Frame.ids_states rule start exit (ways.entries exit) (rest.enter none) frame] at member
      obtain ⟨other, inside⟩ := Heap.mem_ids.mp member
      have same := holds.1 _ _ inside
      rw [found] at same
      cases same
      exact absurd basic (Frame.kind_ne_basic inside)

theorem isTrivial_eq_true {piece : Handle} :
    network.isTrivial piece = true ↔ ∃ left right transition,
      network.state? piece.left = some left ∧ network.state? piece.right = some right ∧
      left.kind = .basic ∧ right.kind = .basic ∧ left.transitions = [transition] ∧
      (transition.next = piece.right ∨ transition.target = piece.right) := by
  unfold Network.isTrivial
  cases network.state? piece.left with
  | none => simp
  | some left =>
      cases network.state? piece.right with
      | none => simp
      | some right =>
          simp only [Bool.and_eq_true, beq_iff_eq, Option.some.injEq, exists_and_left, exists_eq_left']
          split
          · rename_i transition single
            simp [single, and_assoc]
          · rename_i several
            simp only [Bool.false_eq_true, and_false, false_iff, not_and, not_exists]
            exact fun _ _ transition single => absurd single (several transition)

/-- A piece is a single transition if its trail is. -/
theorem isTrivial_eq {trail : Trail} {piece : Handle} (fits : trail.Fits starts.size piece)
    (unique : trail.ids.Nodup) (holds : network.Holds (trail.layout starts rule none))
    (moored : ∀ (index : Nat) (id : StateId), starts[index]? = some id →
      ∃ state, network.state? id = some state ∧ state.kind ≠ .basic) :
    network.isTrivial piece = trail.single?.isSome := by
  obtain ⟨left, right⟩ := piece
  have first : trail.first? = some left := fits.first
  have last : trail.last? = some right := fits.last
  rw [Bool.eq_iff_iff, isTrivial_eq_true]
  constructor
  -- Only a step begins with a basic state that leads on. If it calls a rule, its target is the start of the rule,
  -- which is not basic, so it is the next state of the trail that is the end of the piece.
  · rintro ⟨leftState, rightState, transition, atLeft, atRight, leftBasic, rightBasic, single, arrives⟩
    cases trail with
    | done => cases first
    | gap source rest =>
        cases first
        simp only [layout, Network.holds_cons] at holds
        rw [holds.1] at atLeft
        cases atLeft
        cases single
    | block frame start exit ways rest =>
        obtain rfl : frame.entry start = left := Option.some.inj first
        simp only [layout, Network.holds_append] at holds
        have member := entry_mem frame start exit
        rw [← Frame.ids_states rule start exit (ways.entries exit) (rest.enter none) frame] at member
        obtain ⟨other, inside⟩ := Heap.mem_ids.mp member
        have same := (holds.1 _ _ inside).symm.trans atLeft
        cases same
        exact absurd leftBasic (Frame.kind_ne_basic inside)
    | step source label rest =>
        cases first
        simp only [ids, List.nodup_cons] at unique
        simp only [layout, Network.holds_cons] at holds
        rw [holds.1] at atLeft
        cases atLeft
        rcases fits.opens with ⟨ends, _⟩ | opens
        · rw [first?_eq_none.mp ends] at single
          cases single
        · obtain ⟨head, found⟩ := opens.first?
          have inside := opens.last? last
          obtain rfl : label.edge starts head = transition := by simpa [enter_of_first? found] using single
          have same : head = right := by
            rw [Label.next_edge] at arrives
            rcases arrives with next | target
            · exact next
            · cases call : label.isCall with
              | false => exact (label.target_edge starts call head).symm.trans target
              | true =>
                  obtain ⟨index, callee, _, start⟩ := Label.call_edge starts head call
                  have bound := fits.callsBelow label (by simp [labels]) index callee
                  obtain ⟨state, atStart, kind⟩ :=
                    moored index ((label.edge starts head).target) (by simp [start, bound])
                  rw [target] at atStart
                  cases atRight.symm.trans atStart
                  exact absurd rightBasic kind
          subst same
          obtain ⟨last, rfl⟩ :=
            eq_step_of_first?_last? opens unique.2 holds.2 found inside atRight rightBasic
          rfl
  · intro isSingle
    obtain ⟨⟨source, label⟩, single⟩ := Option.isSome_iff_exists.mp isSingle
    obtain ⟨target, last, rfl⟩ := single?_eq_some.mp single
    cases first
    obtain rfl : target = right := by simpa [last?] using last
    simp only [layout, Network.holds_cons] at holds
    exact ⟨_, _, label.edge starts target, holds.1, holds.2.1, rfl, rfl, rfl, Or.inl (label.next_edge starts target)⟩

end Trivial

end Trail

namespace Build

variable {before current : Construction} {ahead behind : Heap} {loops optionals : List Check}
  {bad : Failure → Prop}

theorem meets_link {trail : Trail} {piece : Handle} {target : StateId}
    (grown : Grown before current
      (ahead ++ (trail.layout before.network.ruleStarts before.rule none ++ behind)) loops optionals)
    (fits : trail.Fits before.network.ruleStarts.size piece) :
    Meets (epsilon piece.right target) current (fun _ after => Grown before after
      (ahead ++ (trail.layout before.network.ruleStarts before.rule (some target) ++ behind))
      loops optionals) bad := by
  have unique := grown.unique
  simp only [Heap.ids_append, Trail.ids_layout] at unique
  have trailUnique : trail.ids.Nodup := by grind
  have member : piece.right ∈ trail.ids := Trail.last?_mem fits.last
  have listed : piece.right ∈
      (ahead ++ (trail.layout before.network.ruleStarts before.rule none ++ behind)).ids := by
    simp [Heap.ids_append, Trail.ids_layout, member]
  have outside : piece.right ∉ ahead.ids := by grind
  have beyond : piece.right ∉ behind.ids := by grind
  have extended := grown.modifyState piece.right (State.extend target) (by simp [State.extend]) listed
  simp only [Heap.modify_append, Heap.modify_of_notMem outside, Heap.modify_of_notMem beyond,
    Trail.link _ _ _ fits.opens trailUnique fits.last] at extended
  exact (meets_epsilon (grown.isLive listed)).mpr extended

/-- Joining a piece to the next one joins its trail. -/
theorem meets_join {trail : Trail} {piece next : Handle}
    (grown : Grown before current
      (ahead ++ (trail.layout before.network.ruleStarts before.rule none ++ behind)) loops optionals)
    (moored : before.network.Moored before.rule)
    (fits : trail.Fits before.network.ruleStarts.size piece) :
    Meets (join piece next) current (fun _ after => Grown before after
      (ahead ++ (trail.front before.network.ruleStarts before.rule next.left ++ behind)) loops optionals)
      bad := by
  have unique := grown.unique
  simp only [Heap.ids_append, Trail.ids_layout] at unique
  have trailUnique : trail.ids.Nodup := by grind
  have holds : current.network.Holds (trail.layout before.network.ruleStarts before.rule none) := by
    have holds := grown.holds
    simp only [Network.holds_append] at holds
    exact holds.2.1
  have trivial_eq : current.network.isTrivial piece = trail.single?.isSome := by
    apply Trail.isTrivial_eq fits trailUnique holds
    intro index id found
    have found : current.network.ruleStarts[index]? = some id := by rw [grown.ruleStarts]; exact found
    obtain ⟨state, _, _, live, kind, _⟩ := grown.moored moored index id found
    exact ⟨state, live, by simp [kind]⟩
  simp only [join, meets_bind, meets_network, trivial_eq]
  cases single : trail.single? with
  | some found =>
      obtain ⟨source, label⟩ := found
      obtain ⟨target, last, rfl⟩ := Trail.single?_eq_some.mp single
      obtain rfl : source = piece.left := Option.some.inj fits.first
      obtain rfl : target = piece.right := by simpa [Trail.last?] using fits.last
      simp only [Option.isSome_some, ↓reduceIte, meets_modifyNetwork]
      simp only [Trail.ids] at unique
      have leftAhead : piece.left ∉ ahead.ids := by grind
      have leftBehind : piece.left ∉ behind.ids := by grind
      have rightAhead : piece.right ∉ ahead.ids := by grind
      have rightBehind : piece.right ∉ behind.ids := by grind
      have different : piece.left ≠ piece.right := by grind
      -- The first state is led past the second, which is taken out.
      have redirected := grown.modifyState piece.left (State.redirectFirst next.left) (fun _ => rfl)
        (by simp [Trail.layout])
      have removed := redirected.removeState piece.right { rule := before.rule, kind := .basic }
        (by simp [Trail.layout, different.symm]) rfl
      simp only [Trail.layout, Heap.modify_append, Heap.modify_of_notMem leftAhead,
        Heap.modify_of_notMem leftBehind, Heap.modify_cons, different.symm, ↓reduceIte, Heap.modify_nil,
        Heap.remove_append, Heap.remove_of_notMem rightAhead, Heap.remove_of_notMem rightBehind,
        Heap.remove_cons, different, Heap.remove_nil, Trail.enter, Trail.first?,
        Option.some_or, Option.toList_some, List.map_cons, List.map_nil, State.redirectFirst,
        Label.redirect_edge] at removed
      rw [Trail.front, single]
      exact removed
  | none =>
      simp only [Option.isSome_none, Bool.false_eq_true, ↓reduceIte]
      rw [Trail.front, single]
      exact meets_link grown fits

theorem meets_sequence {plan : Plan} {trails : List Trail} {pieces : List Handle}
    (moored : before.network.Moored before.rule)
    (fits : List.Forall₂ (Trail.Fits before.network.ruleStarts.size) trails pieces) (some : pieces ≠ []) :
    ∀ {current : Construction} {ahead : Heap}, Grown before current
      (ahead ++ Trail.spread before.network.ruleStarts before.rule trails) loops optionals →
    Meets (sequence plan pieces) current (fun piece after => Grown before after
      (ahead ++ (Trail.joinAll trails).layout before.network.ruleStarts before.rule none) loops optionals ∧
      (Trail.joinAll trails).Fits before.network.ruleStarts.size piece) bad := by
  induction fits with
  | nil => exact absurd rfl some
  | @cons trail piece trails pieces first rest ih =>
      intro current ahead grown
      cases rest with
      | nil =>
          rw [Trail.spread_cons, Trail.spread_nil, List.append_nil] at grown
          exact ⟨grown, first⟩
      | @cons next nextPiece more morePieces second later =>
          rw [Trail.spread_cons] at grown
          simp only [sequence, meets_bind, meets_pure]
          refine (meets_join grown moored first).weaken ?_ fun _ admitted => admitted
          intro _ middle joined
          rw [← List.append_assoc] at joined
          refine (ih (by simp) joined).weaken ?_ fun _ admitted => admitted
          rintro tail after ⟨grown, fits⟩
          rw [Trail.joinAll, Trail.layout_join _ _ _ (Trail.first?_joinAll second.first more),
            ← List.append_assoc]
          exact ⟨grown, first.join fits⟩

end Build

end GrammarNetwork
