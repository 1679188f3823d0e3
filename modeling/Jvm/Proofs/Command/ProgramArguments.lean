import Mathlib
import Jvm.Command.Execute
import Jvm.Proofs.Command.Stopping
import Jvm.Proofs.Machine.EntryPoint

/-!
# The arguments of a program

A command line that runs a program is made of options, the name of a class, and the arguments of the
program. A reader that stops at the arguments does not read what stands behind the class. But the
launcher's spelling of the class-path flag is replaced before anything is read, and up to the first
`--` it is replaced among the arguments too.
-/

namespace Jvm.Command

/-! ### The launcher's spelling -/

/-- The words that are looked at are those up to the first `--`. -/
theorem expandClassPath_append (xs ys : List String) :
    expandClassPath (xs ++ ys) =
      expandClassPath xs ++ if "--" ∈ xs then ys else expandClassPath ys := by
  induction xs with
  | nil => rfl
  | cons x xs ih =>
    rw [List.cons_append, expandClassPath, expandClassPath]
    by_cases hx : x = "--"
    · simp [hx]
    · have hmem : "--" ∈ x :: xs ↔ "--" ∈ xs := by simp [Ne.symm hx]
      rw [if_neg hx, if_neg hx, ih, List.cons_append]
      simp only [hmem]

theorem expandClassPath_eq (ws : List String) :
    expandClassPath ws =
      (ws.takeWhile (· ≠ "--")).map (fun word => if word = "-cp" then "--classpath" else word) ++
        ws.dropWhile (· ≠ "--") := by
  induction ws with
  | nil => rfl
  | cons word ws ih =>
    rw [expandClassPath]
    by_cases hdash : word = "--"
    · simp [hdash]
    · rw [if_neg hdash, ih, List.takeWhile_cons_of_pos (by simpa using hdash),
        List.dropWhile_cons_of_pos (by simpa using hdash), List.map_cons, List.cons_append]

theorem expandClassPath_eq_map {ws : List String} (h : "--" ∉ ws) :
    expandClassPath ws = ws.map fun word => if word = "-cp" then "--classpath" else word := by
  have hall : ∀ word ∈ ws, decide (word ≠ "--") = true := by
    intro word hword
    simp only [ne_eq, decide_eq_true_eq]
    rintro rfl
    exact h hword
  rw [expandClassPath_eq, List.takeWhile_eq_self_iff.mpr hall,
    List.dropWhile_eq_nil_iff.mpr hall, List.append_nil]

theorem dash_mem_expandClassPath_iff (ws : List String) :
    "--" ∈ expandClassPath ws ↔ "--" ∈ ws := by
  induction ws with
  | nil => rfl
  | cons word ws ih =>
    rw [expandClassPath]
    by_cases hdash : word = "--"
    · rw [if_pos hdash]
    · rw [if_neg hdash, List.mem_cons, List.mem_cons, ih]
      split
      · rename_i hcp
        simp [hcp]
      · rfl

theorem expandClassPath_eq_self_iff (ws : List String) :
    expandClassPath ws = ws ↔ "-cp" ∉ ws.takeWhile (· ≠ "--") := by
  induction ws with
  | nil => simp [expandClassPath]
  | cons word ws ih =>
    rw [expandClassPath]
    by_cases hdash : word = "--"
    · simp [hdash]
    · by_cases hcp : word = "-cp"
      · simp [hcp]
      · simp [hdash, hcp, Ne.symm hcp, ih]

/-! ### Command lines that run a program -/

def programOutcome (output : Bytes) : Except Fault Value × Runtime → Outcome
  | (.error f, _) => ⟨output, .failure f⟩
  | (.ok v, rt) =>
    ⟨output ++ (if v.isPresent then rt.world.heap.text v ++ "\n" else "").toUTF8.toList, .success⟩

theorem runProgram_eq (files : Snapshot) (fuel : Nat) (s : Settings) (print : Bool)
    (className : String) (arguments : List String) :
    runProgram files fuel s print className arguments =
      match prepare files s print className [] with
      | (.error f, output) => some ⟨output, .failure f⟩
      | (.ok env, output) =>
        (Runtime.runEntry env fuel ⟨className, s.entryMethod, s.entryDescriptor⟩ arguments .empty).map
          (programOutcome output) := by
  unfold runProgram
  rcases prepare files s print className [] with ⟨f | env, output⟩
  · rfl
  · dsimp only
    rcases Runtime.runEntry env fuel ⟨className, s.entryMethod, s.entryDescriptor⟩ arguments
      .empty with _ | ⟨f | v, rt⟩ <;> rfl

theorem perform_run (files : Snapshot) (fuel : Nat) {request : Request} {o : RunOptions}
    {className : String} {arguments : List String}
    (h : request.action = .run o className arguments) :
    request.perform files fuel =
      match request.settings files with
      | .error f => some (.failed f)
      | .ok s =>
        match request.openLog files s with
        | .error f => some ⟨[], .logFailure f⟩
        | .ok files =>
          runProgram files fuel (o.apply files.workingDirectory s) o.printClass
            (internalName className) arguments := by
  unfold Request.perform
  rw [h]
  cases request.settings files with
  | error f => rfl
  | ok s => rfl

/-- The arguments that a program is given: left as they are once a `--` stands before them. -/
def handedOver (options arguments : List String) : List String :=
  if "--" ∈ options then arguments else expandClassPath arguments

section

variable {reader : Reader} {options arguments : List String} {className : String} {r : Reading}

/-- The class is not respelled, for it is neither `--` nor `-cp` unless a `--` stands before it. -/
theorem expandClassPath_commandLine
    (hends : reader.Ends declarations .run (expandClassPath options) r className) :
    expandClassPath ("run" :: (options ++ className :: arguments)) =
      "run" :: (expandClassPath options ++ className :: handedOver options arguments) := by
  rw [expandClassPath, if_neg (by decide), if_neg (by decide), expandClassPath_append, handedOver]
  by_cases hdash : "--" ∈ options
  · rw [if_pos hdash, if_pos hdash]
  · have hplain : IsPlain className := by
      refine hends.2.resolve_right ?_
      rintro ⟨front, -, hfront, -⟩
      refine hdash ((dash_mem_expandClassPath_iff options).mp ?_)
      rw [hfront]
      exact List.mem_append_right _ (List.mem_singleton_self _)
    have hflag : className ≠ "--" ∧ className ≠ "-cp" := by
      constructor <;> (rintro rfl; exact absurd hplain (by decide))
    rw [if_neg hdash, if_neg hdash, expandClassPath, if_neg hflag.1, if_neg hflag.2]

theorem ofWords_run (hreader : reader.StopsAtArguments)
    (hends : reader.Ends declarations .run (expandClassPath options) r className) :
    Request.ofWords reader ("run" :: (options ++ className :: arguments)) =
      .ok (r.request (.run (.ofReading r) className (handedOver options arguments))) := by
  have hcall : reader declarations
      ("run" :: (expandClassPath options ++ className :: handedOver options arguments)) =
      .ok (.command .run { r with arguments := className :: handedOver options arguments }) :=
    hreader declarations runDeclaration _ r className _ rfl rfl hends
  rw [Request.ofWords, expandClassPath_commandLine hends, hcall]
  rfl

/-- With a reader that stops at the arguments, a command line that runs a program reads the options
in front of the class, with `--classpath` for `-cp`, and hands the words behind the class to the
entry method, as an array where it takes one. They are the words that were given exactly when no
`-cp` stands among them before the first `--` of the command line; otherwise each such `-cp` has
become `--classpath`. -/
theorem run_hands_over (hreader : reader.StopsAtArguments)
    (hends : reader.Ends declarations .run (expandClassPath options) r className) :
    (∀ files fuel,
      execute reader files fuel ("run" :: (options ++ className :: arguments)) =
        let o := RunOptions.ofReading r
        let request := r.request (.run o className (handedOver options arguments))
        match request.settings files with
        | .error f => some (.failed f)
        | .ok s =>
          match request.openLog files s with
          | .error f => some ⟨[], .logFailure f⟩
          | .ok files =>
            match prepare files (o.apply files.workingDirectory s) o.printClass
              (internalName className) [] with
            | (.error f, output) => some ⟨output, .failure f⟩
            | (.ok env, output) =>
              (Runtime.runEntry env fuel
                ⟨internalName className, s.entryMethod, s.entryDescriptor⟩
                (handedOver options arguments) .empty).map (programOutcome output)) ∧
    (∀ (entry : MemberRef) (w : World) (d : MethodDescriptor),
      MethodDescriptor.parse entry.descriptor = .ok d →
      d.parameterPart = "[Ljava/lang/String;" →
      ∃ k w', Runtime.entryArguments entry (handedOver options arguments) w =
          (.ok [.reference (.array k)], w') ∧
        w'.HasStrings k (handedOver options arguments)) ∧
    (handedOver options arguments =
      if "--" ∈ options then arguments
      else (arguments.takeWhile (· ≠ "--")).map
          (fun word => if word = "-cp" then "--classpath" else word) ++
        arguments.dropWhile (· ≠ "--")) ∧
    (handedOver options arguments = arguments ↔
      "--" ∈ options ∨ "-cp" ∉ arguments.takeWhile (· ≠ "--")) ∧
    ("--" ∉ options → expandClassPath options =
      options.map fun word => if word = "-cp" then "--classpath" else word) := by
  refine ⟨fun files fuel => ?_, fun entry w d hd hpart => ?_, ?_, ?_, expandClassPath_eq_map⟩
  · rw [execute, ofWords_run hreader hends]
    dsimp only
    rw [perform_run files fuel (show Request.action _ = _ from rfl)]
    simp only [runProgram_eq]
    rfl
  · obtain ⟨k, w', hentry, -, harray⟩ := (Runtime.entryArguments_array_iff entry
      (handedOver options arguments) w).mpr ⟨d, hd, hpart ▸ by decide⟩
    exact ⟨k, w', hentry, harray⟩
  · rw [handedOver, expandClassPath_eq]
  · unfold handedOver
    split
    · rename_i hmem
      exact ⟨fun _ => .inl hmem, fun _ => rfl⟩
    · rename_i hmem
      rw [expandClassPath_eq_self_iff, or_iff_right hmem]

end

/-- The reader of the program, the launcher's spelling among the options, and arguments that look
like flags. -/
theorem run_hands_over_flags :
    standardReader.StopsAtArguments ∧
    ∃ r, standardReader.Ends declarations .run (expandClassPath ["-cp", "lib", "--max-depth=3"]) r
        "app.Main" ∧
      r.text? "classpath" = some "lib" ∧ r.number? "max-depth" = some 3 ∧
      handedOver ["-cp", "lib", "--max-depth=3"] ["--help", "-v"] = ["--help", "-v"] := by
  obtain ⟨ws, hoptions, hhelp, hpath, hdepth⟩ : ∃ ws,
      Options (Page.ofDeclaration runDeclaration).knownFlags
          (expandClassPath ["-cp", "lib", "--max-depth=3"]) {} ws ∧
        (ws.reading (Page.ofDeclaration runDeclaration).knownFlags).isSet "help" = false ∧
        (ws.reading (Page.ofDeclaration runDeclaration).knownFlags).text? "classpath" = some "lib" ∧
        (ws.reading (Page.ofDeclaration runDeclaration).knownFlags).number? "max-depth" = some 3 :=
    ⟨_, .valued rfl rfl (.alone rfl (.nil _)), by decide, by decide, by decide⟩
  have hends : standardReader.Ends declarations .run
      (expandClassPath ["-cp", "lib", "--max-depth=3"]) _ "app.Main" :=
    ⟨standardReader_accepts rfl hoptions hhelp, .inl (by decide)⟩
  obtain ⟨-, -, -, hsame, -⟩ :=
    @run_hands_over _ _ ["--help", "-v"] _ _ standardReader_stopsAtArguments hends
  exact ⟨standardReader_stopsAtArguments, _, hends, hpath, hdepth, hsame.mpr (.inr (by decide))⟩

/-- An argument of the program that is spelled as the launcher's flag: the program is given another
one. -/
theorem run_hands_over_launcher_spelling :
    standardReader.StopsAtArguments ∧ standardReader.Ends declarations .run [] {} "Main" ∧
      Request.ofWords standardReader ["run", "Main", "-cp"] =
        .ok ⟨"", "", 0, .run ⟨none, none, none, none, false⟩ "Main" ["--classpath"]⟩ ∧
      ∃ w, Runtime.entryArguments ⟨"Main", "main", "([Ljava/lang/String;)V"⟩ ["--classpath"]
          World.empty = (.ok [.reference (.array 0)], w) ∧
        w.HasStrings 0 ["--classpath"] ∧ ¬ w.HasStrings 0 ["-cp"] := by
  have hends : standardReader.Ends declarations .run [] {} "Main" :=
    ⟨@standardReader_accepts _ runDeclaration rfl _ _ (.nil {}) (by decide), .inl (by decide)⟩
  obtain ⟨k, w, hentry, -, harray⟩ := (Runtime.entryArguments_array_iff
    ⟨"Main", "main", "([Ljava/lang/String;)V"⟩ ["--classpath"] World.empty).mpr
      ⟨_, rfl, by decide⟩
  obtain rfl : k = 0 := by
    cases hentry
    rfl
  refine ⟨standardReader_stopsAtArguments, hends,
    @ofWords_run _ [] ["-cp"] _ _ standardReader_stopsAtArguments hends, w, hentry, harray,
    fun hgiven => ?_⟩
  exact absurd (harray.contents_eq hgiven) (by decide)

end Jvm.Command
