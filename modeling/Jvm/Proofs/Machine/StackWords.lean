import Jvm.Proofs.Machine.CallingConvention

/-!
# The operand stack as words

A `long` or a `double` on the operand stack is two words, any other value is one. The instructions
that rearrange the stack move its top words about: each takes some words and leaves copies of them,
given by their numbers from the top. On values they do just that, unless it would tear the halves of
a wide value apart.
-/

namespace Jvm

/-! ### Words -/

inductive StackWord where
  /-- A value of one word. -/
  | whole (v : Value)
  /-- The half of a wide value that lies on top. -/
  | upper (v : Value)
  /-- The half of a wide value that lies below the other. -/
  | lower (v : Value)
  deriving Repr, DecidableEq

def Value.stackWords (v : Value) : List StackWord :=
  if v.isWide then [.upper v, .lower v] else [.whole v]

def stackWords (stack : List Value) : List StackWord := stack.flatMap Value.stackWords

/-- The halves of each wide value stand together: the words are those of some stack. -/
def Untorn (words : List StackWord) : Prop := ∃ stack, stackWords stack = words

/-- Puts words together to values, if no half is left over. -/
def stackOfWords : List StackWord → Option (List Value)
  | [] => some []
  | .whole v :: words => if v.isWide then none else (stackOfWords words).map (v :: ·)
  | .upper v :: .lower u :: words =>
    if v = u ∧ v.isWide then (stackOfWords words).map (v :: ·) else none
  | _ => none

section

variable {v : Value} {words : List StackWord} {stack : List Value}

@[simp] theorem stackWords_nil : stackWords [] = [] := rfl

theorem stackWords_cons_wide (hwide : v.isWide = true) (stack : List Value) :
    stackWords (v :: stack) = .upper v :: .lower v :: stackWords stack := by
  simp [stackWords, Value.stackWords, hwide]

theorem stackWords_cons_narrow (hnarrow : v.isWide = false) (stack : List Value) :
    stackWords (v :: stack) = .whole v :: stackWords stack := by
  simp [stackWords, Value.stackWords, hnarrow]

theorem stackOfWords_stackWords (stack : List Value) :
    stackOfWords (stackWords stack) = some stack := by
  induction stack with
  | nil => rfl
  | cons v rest ih =>
    cases hwide : v.isWide with
    | true => simp [stackWords_cons_wide hwide, stackOfWords, hwide, ih]
    | false => simp [stackWords_cons_narrow hwide, stackOfWords, hwide, ih]

theorem stackWords_of_stackOfWords (h : stackOfWords words = some stack) :
    stackWords stack = words := by
  fun_induction stackOfWords words generalizing stack with
  | case1 =>
    cases h
    rfl
  | case2 => cases h
  | case3 v words hwide ih =>
    obtain ⟨rest, hrest, rfl⟩ := Option.map_eq_some_iff.mp h
    have hnarrow : v.isWide = false := by simpa using hwide
    rw [stackWords_cons_narrow hnarrow, ih hrest]
  | case4 v u words hhalves ih =>
    obtain ⟨rest, hrest, rfl⟩ := Option.map_eq_some_iff.mp h
    obtain ⟨rfl, hwide⟩ := hhalves
    rw [stackWords_cons_wide hwide, ih hrest]
  | case5 => cases h
  | case6 => cases h

theorem stackWords_eq_iff : stackWords stack = words ↔ stackOfWords words = some stack := by
  constructor
  · rintro rfl
    exact stackOfWords_stackWords stack
  · exact stackWords_of_stackOfWords

theorem untorn_iff : Untorn words ↔ (stackOfWords words).isSome = true := by
  simp only [Untorn, stackWords_eq_iff, Option.isSome_iff_exists]

@[simp] theorem untorn_stackWords (stack : List Value) : Untorn (stackWords stack) := ⟨stack, rfl⟩

@[simp] theorem untorn_nil : Untorn [] := untorn_stackWords []

theorem stackWords_injective {stack' : List Value} (h : stackWords stack = stackWords stack') :
    stack = stack' := by
  have hstack := stackOfWords_stackWords stack
  rw [h, stackOfWords_stackWords] at hstack
  exact (Option.some.inj hstack).symm

end

/-! ### Words that are torn -/

section

variable {v u : Value} {words : List StackWord} {stack : List Value}

@[simp] theorem not_untorn_lower : ¬ Untorn (.lower v :: words) := by
  simp [untorn_iff, stackOfWords]

@[simp] theorem untorn_whole : Untorn (.whole v :: words) ↔ v.isWide = false ∧ Untorn words := by
  cases hwide : v.isWide <;> simp [untorn_iff, stackOfWords, hwide]

@[simp] theorem untorn_halves :
    Untorn (.upper v :: .lower u :: words) ↔ (v = u ∧ v.isWide = true) ∧ Untorn words := by
  by_cases hhalves : v = u ∧ v.isWide = true
  · obtain ⟨rfl, hwide⟩ := hhalves
    simp [untorn_iff, stackOfWords, hwide]
  · simp [untorn_iff, stackOfWords, hhalves]

@[simp] theorem not_untorn_upper_whole : ¬ Untorn (.upper v :: .whole u :: words) := by
  simp [untorn_iff, stackOfWords]

@[simp] theorem not_untorn_upper_upper : ¬ Untorn (.upper v :: .upper u :: words) := by
  simp [untorn_iff, stackOfWords]

@[simp] theorem not_untorn_upper_stackWords : ¬ Untorn (.upper v :: stackWords stack) := by
  cases stack with
  | nil => simp [untorn_iff, stackWords, stackOfWords]
  | cons u rest =>
    cases hwide : u.isWide with
    | true => simp [stackWords_cons_wide hwide]
    | false => simp [stackWords_cons_narrow hwide]

end

/-! ### Rearranging words -/

structure WordMove where
  /-- How many words it takes off. -/
  takes : Nat
  /-- The words that it leaves instead, top first, by their numbers from the top. -/
  leaves : List Nat

/-- The words after a rearrangement. Words that are not there are passed over. -/
def WordMove.apply (m : WordMove) (words : List StackWord) : List StackWord :=
  m.leaves.filterMap (words[·]?) ++ words.drop m.takes

def Opcode.wordMove? : Opcode → Option WordMove
  | .pop => some ⟨1, []⟩
  | .pop2 => some ⟨2, []⟩
  | .dup => some ⟨1, [0, 0]⟩
  | .dupX1 => some ⟨2, [0, 1, 0]⟩
  | .dupX2 => some ⟨3, [0, 1, 2, 0]⟩
  | .swap => some ⟨2, [1, 0]⟩
  | _ => none

/-- The three ways in which a rearrangement comes out on a frame. -/
inductive WordMove.Outcome (m : WordMove) (f : Frame) : Except Fault Unit × Frame → Prop where
  | moved {stack : List Value} (henough : m.takes ≤ (stackWords f.stack).length)
    (hwords : stackWords stack = m.apply (stackWords f.stack)) :
    Outcome m f (.ok (), { f with stack })
  | torn {detail : String} {g : Frame} (htorn : ¬ Untorn (m.apply (stackWords f.stack))) :
    Outcome m f (.error (typeMismatch detail), g)
  | short {g : Frame} (hshort : (stackWords f.stack).length < m.takes)
    (huntorn : Untorn (m.apply (stackWords f.stack))) : Outcome m f (.error f.underflow, g)

/-! ### Taking words off -/

section

variable {m : WordMove} {f : Frame} {k : Value → Effect Frame Unit} {stack : List Value}

open WordMove (Outcome)

/-- The next value of a stack of which the words in `front` have been taken off. -/
theorem pop_outcome (front : List StackWord)
    (hwords : stackWords f.stack = front ++ stackWords stack)
    (hshort : front.length < m.takes ∧ Untorn (m.apply front))
    (hwide : ∀ v below, v.isWide = true →
      stackWords f.stack = front ++ .upper v :: .lower v :: stackWords below →
      Outcome m f (k v { f with stack := below }))
    (hnarrow : ∀ v below, v.isWide = false →
      stackWords f.stack = front ++ .whole v :: stackWords below →
      Outcome m f (k v { f with stack := below })) :
    Outcome m f ((Frame.pop >>= k) { f with stack }) := by
  rw [Effect.bind_apply]
  cases stack with
  | nil =>
    rw [stackWords_nil, List.append_nil] at hwords
    rw [← hwords] at hshort
    exact .short hshort.1 hshort.2
  | cons v below =>
    cases hv : v.isWide with
    | true =>
      rw [stackWords_cons_wide hv] at hwords
      exact hwide v below hv hwords
    | false =>
      rw [stackWords_cons_narrow hv] at hwords
      exact hnarrow v below hv hwords

theorem popWord_outcome (front : List StackWord)
    (hwords : stackWords f.stack = front ++ stackWords stack)
    (hshort : front.length < m.takes ∧ Untorn (m.apply front))
    (htorn : ∀ v below, ¬ Untorn (m.apply (front ++ .upper v :: .lower v :: stackWords below)))
    (hnext : ∀ v below, v.isWide = false →
      stackWords f.stack = front ++ .whole v :: stackWords below →
      Outcome m f (k v { f with stack := below })) :
    Outcome m f ((Exec.popWord >>= k) { f with stack }) := by
  rw [Exec.popWord, bind_assoc]
  refine pop_outcome front hwords hshort ?_ ?_
  · intro v below hv hwords
    have hcut := htorn v below
    rw [← hwords] at hcut
    simp only [hv]
    exact .torn hcut
  · intro v below hv hwords
    simp only [hv]
    exact hnext v below hv hwords

end

namespace Exec

theorem pushAll_apply (values : List Value) (f : Frame) :
    pushAll values f = (.ok (), { f with stack := values.reverse ++ f.stack }) := by
  induction values generalizing f with
  | nil => rfl
  | cons v rest ih =>
    rw [pushAll, Effect.bind_apply]
    simp only [Frame.push, Effect.update]
    rw [ih, Frame.pushed, List.reverse_cons, List.append_assoc, List.singleton_append]

/-! ### The stack instructions on words -/

open WordMove (Outcome)

theorem popOne_outcome (f : Frame) : Outcome ⟨1, []⟩ f (popOne f) := by
  refine popWord_outcome [] rfl (by simp [WordMove.apply]) (by simp [WordMove.apply]) ?_
  intro v below hv hwords
  exact .moved (by simp [hwords]) (by simp [hwords, WordMove.apply])

theorem popTwo_outcome (f : Frame) : Outcome ⟨2, []⟩ f (popTwo f) := by
  refine pop_outcome [] rfl (by simp [WordMove.apply]) ?_ ?_
  · intro v below hv hwords
    simp only [hv]
    exact .moved (by simp [hwords]) (by simp [hwords, WordMove.apply])
  · intro v below hv hwords
    simp only [hv]
    refine popWord_outcome [.whole v] hwords (by simp [WordMove.apply])
      (by simp [WordMove.apply]) ?_
    intro u rest hu hwords
    exact .moved (by simp [hwords]) (by simp [hwords, WordMove.apply])

theorem duplicate_outcome (f : Frame) : Outcome ⟨1, [0, 0]⟩ f (duplicate f) := by
  refine popWord_outcome [] rfl (by simp [WordMove.apply]) (by simp [WordMove.apply]) ?_
  intro v below hv hwords
  rw [pushAll_apply]
  exact .moved (by simp [hwords]) (by simp [hwords, stackWords_cons_narrow hv, WordMove.apply])

theorem duplicateBelowOne_outcome (f : Frame) :
    Outcome ⟨2, [0, 1, 0]⟩ f (duplicateBelowOne f) := by
  refine popWord_outcome [] rfl (by simp [WordMove.apply]) (by simp [WordMove.apply]) ?_
  intro v below hv hwords
  refine popWord_outcome [.whole v] hwords (by simp [hv, WordMove.apply])
    (by simp [WordMove.apply]) ?_
  intro u rest hu hwords
  rw [pushAll_apply]
  exact .moved (by simp [hwords])
    (by simp [hwords, stackWords_cons_narrow hu, stackWords_cons_narrow hv, WordMove.apply])

theorem exchange_outcome (f : Frame) : Outcome ⟨2, [1, 0]⟩ f (exchange f) := by
  refine popWord_outcome [] rfl (by simp [WordMove.apply]) (by simp [WordMove.apply]) ?_
  intro v below hv hwords
  refine popWord_outcome [.whole v] hwords (by simp [hv, WordMove.apply])
    (by simp [WordMove.apply]) ?_
  intro u rest hu hwords
  rw [pushAll_apply]
  exact .moved (by simp [hwords])
    (by simp [hwords, stackWords_cons_narrow hu, stackWords_cons_narrow hv, WordMove.apply])

theorem duplicateBelowTwo_outcome (f : Frame) :
    Outcome ⟨3, [0, 1, 2, 0]⟩ f (duplicateBelowTwo f) := by
  have htorn (v : Value) (below : List Value) : ¬ Untorn (WordMove.apply ⟨3, [0, 1, 2, 0]⟩
      (.upper v :: .lower v :: stackWords below)) := by
    cases below with
    | nil => simp [WordMove.apply, untorn_iff, stackOfWords]
    | cons u rest =>
      cases hu : u.isWide with
      | true => simp [stackWords_cons_wide hu, WordMove.apply]
      | false => simp [stackWords_cons_narrow hu, WordMove.apply]
  refine popWord_outcome [] rfl (by simp [WordMove.apply]) htorn ?_
  intro v below hv hwords
  refine pop_outcome [.whole v] hwords (by simp [hv, WordMove.apply]) ?_ ?_
  · intro u rest hu hwords
    rw [if_pos hu, pushAll_apply]
    exact .moved (by simp [hwords])
      (by simp [hwords, stackWords_cons_wide hu, stackWords_cons_narrow hv, WordMove.apply])
  · intro u rest hu hwords
    simp only [hu]
    refine popWord_outcome [.whole v, .whole u] hwords
      (by simp [hu, hv, WordMove.apply]) (by simp [WordMove.apply]) ?_
    intro t bottom ht hwords
    rw [pushAll_apply]
    exact .moved (by simp [hwords])
      (by simp [hwords, stackWords_cons_narrow ht, stackWords_cons_narrow hu,
        stackWords_cons_narrow hv, WordMove.apply])

end Exec

/-! ### Instructions -/

theorem Exec.rearrange_apply (action : Effect Frame Unit) (s : Scene) :
    rearrange action s =
      ((action s.frame).1.map fun _ => .next, { s with frame := (action s.frame).2 }) := by
  rw [rearrange, Effect.bind_apply]
  simp only [Scene.onFrame, Effect.zoom]
  rcases action s.frame with ⟨_ | _, g⟩ <;> rfl

/-- A stack instruction is a computation on the frame that comes out as its move of words does. -/
theorem Environment.execute_rearranges (env : Environment) (depth : Nat) {i : Instruction}
    {m : WordMove} (hmove : i.opcode.wordMove? = some m) (s : Scene) :
    ∃ out, m.Outcome s.frame out ∧
      env.execute depth i s = (out.1.map fun _ => .next, { s with frame := out.2 }) := by
  have hrun {action : Effect Frame Unit} (hexecute : env.execute depth i = Exec.rearrange action)
      (houtcome : m.Outcome s.frame (action s.frame)) : ∃ out, m.Outcome s.frame out ∧
        env.execute depth i s = (out.1.map fun _ => .next, { s with frame := out.2 }) :=
    ⟨_, houtcome, by rw [hexecute, Exec.rearrange_apply]⟩
  unfold Opcode.wordMove? at hmove
  split at hmove <;> rename_i hopcode <;> cases hmove
  · exact hrun (by simp only [execute, hopcode]) (Exec.popOne_outcome _)
  · exact hrun (by simp only [execute, hopcode]) (Exec.popTwo_outcome _)
  · exact hrun (by simp only [execute, hopcode]) (Exec.duplicate_outcome _)
  · exact hrun (by simp only [execute, hopcode]) (Exec.duplicateBelowOne_outcome _)
  · exact hrun (by simp only [execute, hopcode]) (Exec.duplicateBelowTwo_outcome _)
  · exact hrun (by simp only [execute, hopcode]) (Exec.exchange_outcome _)

/-- On the words of the operand stack a stack instruction is its move of words. It succeeds exactly
when there are enough words and no wide value is torn; then the words of the new stack are the moved
words, and nothing else has changed. It fails for a kind exactly when a wide value would be torn,
and for want of values exactly when the words that are there would not be torn, but are too
few. -/
theorem Environment.execute_moves_words (env : Environment) (depth : Nat) {i : Instruction}
    {m : WordMove} (hmove : i.opcode.wordMove? = some m) (s : Scene) :
    let words := stackWords s.frame.stack
    (∀ step t, env.execute depth i s = (.ok step, t) ↔
      m.takes ≤ words.length ∧ step = .next ∧
        ∃ stack, stackWords stack = m.apply words ∧ t = s.withStack stack) ∧
    ((∃ detail t, env.execute depth i s = (.error (typeMismatch detail), t)) ↔
      ¬ Untorn (m.apply words)) ∧
    ((∃ t, env.execute depth i s = (.error s.frame.underflow, t)) ↔
      words.length < m.takes ∧ Untorn (m.apply words)) := by
  intro words
  obtain ⟨out, houtcome, hexecute⟩ := env.execute_rearranges depth hmove s
  cases houtcome with
  | @moved stack henough hwords =>
    have hmoved : env.execute depth i s = (.ok .next, s.withStack stack) := hexecute
    have huntorn : Untorn (m.apply words) := ⟨stack, hwords⟩
    refine ⟨fun step t => ⟨fun h => ?_, ?_⟩, ⟨?_, fun h => absurd huntorn h⟩, ⟨?_, fun h => ?_⟩⟩
    · cases hmoved.symm.trans h
      exact ⟨henough, rfl, stack, hwords, rfl⟩
    · rintro ⟨-, rfl, stack', hwords', rfl⟩
      rw [hmoved, stackWords_injective (hwords.trans hwords'.symm)]
    · rintro ⟨detail, t, h⟩
      cases hmoved.symm.trans h
    · rintro ⟨t, h⟩
      cases hmoved.symm.trans h
    · exact absurd h.1 (Nat.not_lt.mpr henough)
  | @torn detail g htorn =>
    have hfailed : env.execute depth i s = (.error (typeMismatch detail), { s with frame := g }) :=
      hexecute
    refine ⟨fun step t => ⟨fun h => ?_, ?_⟩, ⟨fun _ => htorn, fun _ => ⟨_, _, hfailed⟩⟩,
      ⟨?_, fun h => absurd h.2 htorn⟩⟩
    · cases hfailed.symm.trans h
    · rintro ⟨-, -, stack, hwords, -⟩
      exact absurd ⟨stack, hwords⟩ htorn
    · rintro ⟨t, h⟩
      cases hfailed.symm.trans h
  | @short g hshort huntorn =>
    have hfailed : env.execute depth i s = (.error s.frame.underflow, { s with frame := g }) :=
      hexecute
    refine ⟨fun step t => ⟨fun h => ?_, fun h => ?_⟩, ⟨?_, fun h => absurd huntorn h⟩,
      ⟨fun _ => ⟨hshort, huntorn⟩, fun _ => ⟨_, hfailed⟩⟩⟩
    · cases hfailed.symm.trans h
    · exact absurd hshort (Nat.not_lt.mpr h.1)
    · rintro ⟨detail, t, h⟩
      cases hfailed.symm.trans h

-- Below the top, two words are skipped: here those of one `long`, there half of one, and at last
-- too few.
theorem execute_moves_words_below_long :
    let env : Environment := ⟨.empty, .standard, 1, false⟩
    let i : Instruction := ⟨0, .dupX2, .none⟩
    let s := conventionScene.withStack [.int 1, .long 2, .int 3]
    let torn := conventionScene.withStack [.int 1, .int 2, .long 3]
    let short := conventionScene.withStack [.int 1, .int 2]
    i.opcode.wordMove? = some ⟨3, [0, 1, 2, 0]⟩ ∧
      env.execute 1 i s =
        (.ok .next, s.withStack [.int 1, .long 2, .int 1, .int 3]) ∧
      (∃ detail t, env.execute 1 i torn = (.error (typeMismatch detail), t)) ∧
      ∃ t, env.execute 1 i short = (.error short.frame.underflow, t) := by
  intro env i s torn short
  have hmove : i.opcode.wordMove? = some ⟨3, [0, 1, 2, 0]⟩ := rfl
  refine ⟨hmove, ?_, ?_, ?_⟩
  · exact ((env.execute_moves_words 1 hmove s).1 .next _).mpr ⟨by decide, rfl, _, rfl, rfl⟩
  · refine (env.execute_moves_words 1 hmove torn).2.1.mpr ?_
    rw [untorn_iff]
    decide
  · refine (env.execute_moves_words 1 hmove short).2.2.mpr ⟨by decide, ?_⟩
    rw [untorn_iff]
    decide

end Jvm
