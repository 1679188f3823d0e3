import Mathlib
import Jvm.Command.Reader

/-!
# Readers that stop at the arguments

A command line is its options and, behind them, its arguments. Where a command may not mix the two,
a reader is expected to stop at the first argument, and to pass on whatever follows as it is. The
reader that the program is run with does.
-/

namespace Jvm.Command

/-! ### The end of the options -/

/-- A word that is no flag: it does not start with a dash, or it is a single dash. -/
def IsPlain (word : String) : Prop := word = "-" ∨ word.toList.head? ≠ some '-'

instance : DecidablePred IsPlain := fun _ => inferInstanceAs (Decidable (_ ∨ _))

namespace Reader

/-- The words are read as options of a command and nothing else. -/
def Accepts (reader : Reader) (declarations : List Declaration) (name : Name)
    (options : List String) (r : Reading) : Prop :=
  reader declarations (name.text :: options) = .ok (.command name r) ∧ r.arguments = []

/-- The options end in front of a word, which is no flag, or has a `--` in front of it that is no
value of a flag. -/
def Ends (reader : Reader) (declarations : List Declaration) (name : Name) (options : List String)
    (r : Reading) (word : String) : Prop :=
  reader.Accepts declarations name options r ∧
    (IsPlain word ∨
      ∃ front r₀, options = front ++ ["--"] ∧ reader.Accepts declarations name front r₀)

/-- Where arguments and flags of a command may not be mixed, reading stops at the first argument,
and everything from there on is passed on as it is. -/
def StopsAtArguments (reader : Reader) : Prop :=
  ∀ (declarations : List Declaration) (d : Declaration) (options : List String) (r : Reading)
    (word : String) (rest : List String),
    declarations.find? (·.command == d.command) = some d → d.mixed = false →
    reader.Ends declarations d.command options r word →
    reader declarations (d.command.text :: (options ++ word :: rest)) =
      .ok (.command d.command { r with arguments := word :: rest })

end Reader

/-! ### Words that are options -/

section

variable {flags : List Flag}

/-- The flags of a word; `none` for a word that has none. -/
def flagsOf? (flags : List Flag) (word : String) (ws : Words) :
    Option (Except FlagError (Words × Demand)) :=
  match Word.of word with
  | .long name => some (longFlag flags name ws)
  | .letters letters => some (letterFlags flags letters ws)
  | .argument | .separator => none

/-- Words that are flags with their values and nothing else, between what was read before them and
what has been read after them. -/
inductive Options (flags : List Flag) : List String → Words → Words → Prop
  | nil (ws : Words) : Options flags [] ws ws
  | alone {word : String} {rest : List String} {ws ws₁ ws' : Words}
      (hword : flagsOf? flags word ws = some (.ok (ws₁, .done)))
      (hrest : Options flags rest ws₁ ws') :
    Options flags (word :: rest) ws ws'
  | valued {word value : String} {rest : List String} {ws ws₁ ws₂ ws' : Words} {f : Flag}
      {otherwise : FlagError}
      (hword : flagsOf? flags word ws = some (.ok (ws₁, .value f otherwise)))
      (hvalue : give f value ws₁ = .ok ws₂) (hrest : Options flags rest ws₂ ws') :
    Options flags (word :: value :: rest) ws ws'

theorem read_of_flagsOf? {mixed : Bool} {word : String} {ws : Words}
    {result : Except FlagError (Words × Demand)} (h : flagsOf? flags word ws = some result)
    (rest : List String) :
    read flags mixed (word :: rest) ws = read.next flags mixed rest result := by
  unfold flagsOf? at h
  rw [read]
  split at h <;> cases h <;> rename_i hword <;> rw [hword]

/-- Options are read before whatever follows them. -/
theorem Options.read_append {options : List String} {ws ws' : Words}
    (h : Options flags options ws ws') (mixed : Bool) (rest : List String) :
    read flags mixed (options ++ rest) ws = read flags mixed rest ws' := by
  induction h with
  | nil ws => rfl
  | alone hword _ ih =>
    rw [List.cons_append, read_of_flagsOf? hword, read.next, ih]
  | valued hword hvalue _ ih =>
    rw [List.cons_append, List.cons_append, read_of_flagsOf? hword, read.next, hvalue]
    exact ih

/-! #### Options are no arguments -/

theorem give_arguments {f : Flag} {value : String} {ws ws' : Words}
    (h : give f value ws = .ok ws') : ws'.arguments = ws.arguments := by
  unfold give at h
  split at h <;> cases h
  rfl

theorem given_arguments {f : Flag} {value : String} {ws ws' : Words} {d : Demand}
    (h : (give f value ws).map (fun ws => (ws, Demand.done)) = .ok (ws', d)) :
    ws'.arguments = ws.arguments := by
  cases hgive : give f value ws with
  | error e =>
    rw [hgive] at h
    cases h
  | ok ws₁ =>
    rw [hgive] at h
    cases h
    exact give_arguments hgive

theorem longFlag_arguments {name : String} {ws ws' : Words} {d : Demand}
    (h : longFlag flags name ws = .ok (ws', d)) : ws'.arguments = ws.arguments := by
  unfold longFlag at h
  dsimp only at h
  split at h
  · cases h
  split at h
  · cases h
  split at h
  · exact given_arguments h
  · exact given_arguments h
  · cases h
    rfl

theorem letterFlags_arguments {letters : List Char} {ws ws' : Words} {d : Demand}
    (h : letterFlags flags letters ws = .ok (ws', d)) : ws'.arguments = ws.arguments := by
  fun_induction letterFlags flags letters ws with
  | case1 | case2 =>
    cases h
    rfl
  | case3 | case6 => cases h
  | case4 | case8 => exact given_arguments h
  | case5 =>
    rename_i hgive _ ih
    rw [ih h, give_arguments hgive]
  | case7 =>
    cases h
    rfl

theorem flagsOf?_arguments {word : String} {ws ws' : Words} {d : Demand}
    (h : flagsOf? flags word ws = some (.ok (ws', d))) : ws'.arguments = ws.arguments := by
  unfold flagsOf? at h
  split at h
  · exact longFlag_arguments (Option.some.inj h)
  · exact letterFlags_arguments (Option.some.inj h)
  · cases h
  · cases h

theorem Options.arguments_eq {options : List String} {ws ws' : Words}
    (h : Options flags options ws ws') : ws'.arguments = ws.arguments := by
  induction h with
  | nil => rfl
  | alone hword _ ih => rw [ih, flagsOf?_arguments hword]
  | valued hword hvalue _ ih => rw [ih, give_arguments hvalue, flagsOf?_arguments hword]

/-! ### What stands behind options -/

theorem wordOf_eq_argument_iff {word : String} : Word.of word = .argument ↔ IsPlain word := by
  have hdash : word = "-" ↔ word.toList = ['-'] := String.toList_inj.symm
  unfold Word.of IsPlain
  rw [hdash]
  split
  case h_1 hword | h_2 hword | h_3 hword => simp [hword]
  case h_4 hflag =>
    refine ⟨fun _ => ?_, fun _ => rfl⟩
    rcases hword : word.toList with _ | ⟨c, _ | ⟨d, rest⟩⟩
    · simp
    · by_cases hc : c = '-' <;> simp [hc]
    · have hc : c ≠ '-' := by
        rintro rfl
        exact hflag d rest hword
      simp [hc]

theorem eq_of_wordOf_separator {word : String} (h : Word.of word = .separator) : word = "--" := by
  unfold Word.of at h
  split at h
  case h_1 hword => exact String.toList_inj.mp hword
  all_goals cases h

theorem flagsOf?_eq_none {word : String} {ws : Words} (h : flagsOf? flags word ws = none) :
    IsPlain word ∨ word = "--" := by
  unfold flagsOf? at h
  split at h
  · cases h
  · cases h
  · rename_i hword
    exact .inl (wordOf_eq_argument_iff.mp hword)
  · rename_i hword
    exact .inr (eq_of_wordOf_separator hword)

/-- What stands between the options and the first word behind them: nothing, if this word is no
flag, or a `--`. -/
def Behind (dash : List String) (first? : Option String) : Prop :=
  dash = [] ∧ (∀ word ∈ first?, IsPlain word) ∨ dash = ["--"]

theorem behind_some {dash : List String} {word : String} :
    Behind dash (some word) ↔ dash = [] ∧ IsPlain word ∨ dash = ["--"] := by
  simp [Behind]

theorem read_behind {dash rest : List String} (h : Behind dash rest.head?) (flags : List Flag)
    (ws : Words) :
    read flags false (dash ++ rest) ws = .ok { ws with arguments := ws.arguments ++ rest } := by
  rcases h with ⟨rfl, hplain⟩ | rfl
  · cases rest with
    | nil =>
      rw [List.append_nil, read, List.append_nil]
    | cons word rest =>
      rw [List.nil_append, read, wordOf_eq_argument_iff.mpr (hplain word rfl)]
      rfl
  · rw [List.singleton_append, read]
    rfl

/-- Words that have been read are options, with arguments behind them. -/
theorem exists_options_of_read {words : List String} {ws result : Words}
    (h : read flags false words ws = .ok result) :
    ∃ options dash rest ws', words = options ++ (dash ++ rest) ∧ Options flags options ws ws' ∧
      Behind dash rest.head? ∧ result = { ws' with arguments := ws'.arguments ++ rest } := by
  -- What is read at once is a flag with its value, so the words get fewer by one or two.
  induction hn : words.length using Nat.strongRecOn generalizing words ws with
  | ind n ih =>
    subst hn
    have hend {dash rest : List String} (hbehind : Behind dash rest.head?)
        (hwords : words = dash ++ rest) :
        result = { ws with arguments := ws.arguments ++ rest } := by
      rw [hwords, read_behind hbehind] at h
      exact (Except.ok.inj h).symm
    cases words with
    | nil =>
      have hbehind : Behind [] none := .inl ⟨rfl, nofun⟩
      exact ⟨[], [], [], ws, rfl, .nil ws, hbehind, hend hbehind rfl⟩
    | cons word rest =>
      cases hword : flagsOf? flags word ws with
      | none =>
        rcases flagsOf?_eq_none hword with hplain | rfl
        · have hbehind : Behind [] (some word) := behind_some.mpr (.inl ⟨rfl, hplain⟩)
          exact ⟨[], [], _, ws, rfl, .nil ws, hbehind, hend hbehind rfl⟩
        · exact ⟨[], ["--"], rest, ws, rfl, .nil ws, .inr rfl, hend (.inr rfl) rfl⟩
      | some read? =>
        rw [read_of_flagsOf? hword] at h
        rcases read? with e | ⟨ws₁, _ | ⟨f, otherwise⟩⟩
        · rw [read.next] at h
          cases h
        · rw [read.next] at h
          obtain ⟨options, dash, rest, ws', rfl, hoptions, hbehind⟩ :=
            ih rest.length (by simp) h rfl
          exact ⟨word :: options, dash, rest, ws', rfl, .alone hword hoptions, hbehind⟩
        · cases rest with
          | nil =>
            rw [read.next] at h
            cases h
          | cons value rest =>
            rw [read.next] at h
            cases hgive : give f value ws₁ with
            | error e =>
              rw [hgive] at h
              cases h
            | ok ws₂ =>
              rw [hgive] at h
              obtain ⟨options, dash, rest, ws', rfl, hoptions, hbehind⟩ :=
                ih rest.length (by simp) h rfl
              exact ⟨word :: value :: options, dash, rest, ws', rfl, .valued hword hgive hoptions,
                hbehind⟩

end

/-! ### The reader of the program -/

theorem Name.text_inj {a b : Name} : a.text = b.text ↔ a = b := by
  cases a <;> cases b <;> decide

theorem Name.text_isPlain (name : Name) :
    name.text ≠ "--" ∧ takesNext name.text = false ∧ name.text ≠ "" ∧
      name.text.toList.head? ≠ some '-' := by
  cases name <;> decide

theorem firstPlain?_command (name : Name) (words : List String) :
    firstPlain? (name.text :: words) = some name.text := by
  obtain ⟨hdash, hnext, hempty, hhead⟩ := name.text_isPlain
  unfold firstPlain?
  rw [if_neg hdash, if_neg (by simp [hnext]), if_pos (by simp [hempty, hhead])]

theorem withoutPlain_command (name : Name) (words : List String) :
    withoutPlain name.text (name.text :: words) = words := by
  obtain ⟨hdash, hnext, -, hhead⟩ := name.text_isPlain
  unfold withoutPlain
  rw [if_neg hdash, if_neg (by simp [hnext]), if_pos (by simp [hhead])]

theorem standardReader_command {declarations : List Declaration} {d : Declaration}
    (hd : declarations.find? (·.command == d.command) = some d) (words : List String) :
    standardReader declarations (d.command.text :: words) =
      readFor (.ofDeclaration d) d.mixed words (.command d.command) := by
  have hfind : declarations.find? (·.command.text == d.command.text) = some d := by
    rw [← hd]
    congr 1
    funext x
    simp [Name.text_inj, beq_eq_decide]
  simp only [standardReader, firstPlain?_command, withoutPlain_command, hfind]

theorem readFor_eq_command_iff {p : Page} {mixed : Bool} {words : List String} {name : Name}
    {r : Reading} :
    readFor p mixed words (.command name) = .ok (.command name r) ↔
      ∃ ws, read p.knownFlags mixed words {} = .ok ws ∧
        (ws.reading p.knownFlags).isSet "help" = false ∧ ws.reading p.knownFlags = r := by
  unfold readFor
  cases read p.knownFlags mixed words {} with
  | error e => simp
  | ok ws =>
    dsimp only
    split
    · rename_i hhelp
      simp [hhelp]
    · rename_i hhelp
      simp [hhelp]

theorem exists_read_of_accepts {declarations : List Declaration} {d : Declaration}
    (hd : declarations.find? (·.command == d.command) = some d) (hmixed : d.mixed = false)
    {options : List String} {r : Reading}
    (h : standardReader.Accepts declarations d.command options r) :
    ∃ ws, read (Page.ofDeclaration d).knownFlags false options {} = .ok ws ∧ ws.arguments = [] ∧
      ws.reading (Page.ofDeclaration d).knownFlags = r ∧ r.isSet "help" = false := by
  obtain ⟨hread, harguments⟩ := h
  rw [standardReader_command hd, hmixed] at hread
  obtain ⟨ws, hwords, hhelp, rfl⟩ := readFor_eq_command_iff.mp hread
  exact ⟨ws, hwords, harguments, rfl, hhelp⟩

theorem standardReader_accepts {declarations : List Declaration} {d : Declaration}
    (hd : declarations.find? (·.command == d.command) = some d) {options : List String} {ws : Words}
    (h : Options (Page.ofDeclaration d).knownFlags options {} ws)
    (hhelp : (ws.reading (Page.ofDeclaration d).knownFlags).isSet "help" = false) :
    standardReader.Accepts declarations d.command options
      (ws.reading (Page.ofDeclaration d).knownFlags) := by
  have hread : read (Page.ofDeclaration d).knownFlags d.mixed options {} = .ok ws := by
    rw [← List.append_nil options, h.read_append, read]
  refine ⟨?_, h.arguments_eq⟩
  rw [standardReader_command hd]
  exact readFor_eq_command_iff.mpr ⟨ws, hread, hhelp, rfl⟩

theorem exists_options_of_arguments_eq_nil {flags : List Flag} {words : List String}
    {result : Words} (h : read flags false words {} = .ok result) (harguments : result.arguments = []) :
    ∃ options dash, words = options ++ dash ∧ Options flags options {} result ∧
      (dash = [] ∨ dash = ["--"]) := by
  obtain ⟨options, dash, rest, ws, rfl, hoptions, hdash, rfl⟩ := exists_options_of_read h
  obtain ⟨-, rfl⟩ := List.append_eq_nil_iff.mp harguments
  refine ⟨options, dash, by rw [List.append_nil], ?_, hdash.imp (·.1) id⟩
  rw [List.append_nil]
  exact hoptions

/-- Options that end in front of a word are options with nothing or a `--` behind them. -/
theorem exists_options_of_ends {declarations : List Declaration} {d : Declaration}
    (hd : declarations.find? (·.command == d.command) = some d) (hmixed : d.mixed = false)
    {options : List String} {r : Reading} {word : String}
    (h : standardReader.Ends declarations d.command options r word) :
    ∃ front dash ws, options = front ++ dash ∧
      Options (Page.ofDeclaration d).knownFlags front {} ws ∧ Behind dash (some word) ∧
      ws.reading (Page.ofDeclaration d).knownFlags = r ∧ r.isSet "help" = false := by
  obtain ⟨haccepts, hword⟩ := h
  obtain ⟨ws, hread, harguments, hreading, hhelp⟩ := exists_read_of_accepts hd hmixed haccepts
  rcases hword with hplain | ⟨front, r₀, rfl, hfront⟩
  · obtain ⟨front, dash, rfl, hoptions, hdash⟩ :=
      exists_options_of_arguments_eq_nil hread harguments
    have hbehind : Behind dash (some word) := behind_some.mpr (hdash.imp (⟨·, hplain⟩) id)
    exact ⟨front, dash, ws, rfl, hoptions, hbehind, hreading, hhelp⟩
  · obtain ⟨ws₀, hread₀, harguments₀, -, -⟩ := exists_read_of_accepts hd hmixed hfront
    obtain ⟨front, dash, rfl, hoptions, hdash⟩ :=
      exists_options_of_arguments_eq_nil hread₀ harguments₀
    rw [List.append_assoc, hoptions.read_append] at hread
    rcases hdash with rfl | rfl
    · have hseparator : read (Page.ofDeclaration d).knownFlags false ["--"] ws₀ = .ok ws₀ := by
        rw [← List.append_nil ["--"], read_behind (.inr rfl), List.append_nil]
      rw [List.nil_append, hseparator] at hread
      obtain rfl : ws₀ = ws := Except.ok.inj hread
      exact ⟨front, ["--"], ws₀, by rw [List.append_nil], hoptions, .inr rfl, hreading, hhelp⟩
    -- Behind a first `--` a second one would have been read as an argument.
    · rw [read_behind (.inr rfl)] at hread
      obtain rfl := Except.ok.inj hread
      simp at harguments

/-- The reader that the program is run with stops at the arguments. -/
theorem standardReader_stopsAtArguments : standardReader.StopsAtArguments := by
  intro declarations d options r word rest hd hmixed hends
  obtain ⟨front, dash, ws, rfl, hfront, hdash, rfl, hhelp⟩ := exists_options_of_ends hd hmixed hends
  have hread : read (Page.ofDeclaration d).knownFlags false (front ++ (dash ++ word :: rest)) {} =
      .ok { ws with arguments := word :: rest } := by
    rw [hfront.read_append, read_behind hdash, hfront.arguments_eq]
    rfl
  rw [standardReader_command hd, hmixed, List.append_assoc]
  exact readFor_eq_command_iff.mpr ⟨_, hread, hhelp, rfl⟩

end Jvm.Command
