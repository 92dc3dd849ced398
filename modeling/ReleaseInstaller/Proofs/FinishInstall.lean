import ReleaseInstaller.CommandLine.Arguments

/-! Arguments that name one command for another. An installation from a lifecycle script takes the
arguments that any other takes, so they are read the same way once the name of the command is
exchanged. -/
namespace ReleaseInstaller.CommandLine

variable {env : Environment} {text name : String} {log? : Option LogLevel}

def Subcommand.finishing : Subcommand → Subcommand
  | install version? => finishInstall version?
  | command => command

def Invocation.finishing (i : Invocation) : Invocation :=
  { i with subcommand := i.subcommand.finishing }

theorem setVersion_finishing (command : Subcommand) (value : String) :
    setVersion command.finishing value = (setVersion command value).map Subcommand.finishing := by
  rcases command with _ | _ | _ | (_ | _) | _ | (_ | _) <;> rfl

theorem readOptions_finishing (log? : Option LogLevel) (command : Subcommand) (rest : List String) :
    readOptions log? command.finishing rest =
      (readOptions log? command rest).map Invocation.finishing := by
  fun_induction readOptions log? command rest with
  | case1 => rfl
  | case2 log? command text value rest looks ih =>
    rw [readOptions.eq_def]
    simp only [looks]
    cases setLog log? value with
    | error => rfl
    | ok level => exact ih level
  | case3 log? command text value rest looks ih =>
    rw [readOptions.eq_def]
    simp only [looks,setVersion_finishing]
    cases setVersion command value with
    | error => rfl
    | ok command => exact ih command
  | case4 log? command text next rest looks value given ih =>
    rw [readOptions.eq_def]
    simp only [looks,given]
    cases setLog log? value with
    | error => rfl
    | ok level => exact ih level
  | case6 log? command text next rest looks value given ih =>
    rw [readOptions.eq_def]
    simp only [looks,given,setVersion_finishing]
    cases setVersion command value with
    | error => rfl
    | ok command => exact ih command
  | case5 | case7 | case8 | case9 | case10 | case11 =>
    rw [readOptions.eq_def]
    simp only [*]
    rfl

theorem ofString_plain (plain : Argument.ofString text = .plain name) : name = text := by
  unfold Argument.ofString at plain
  split at plain
  · cases plain
  · dsimp only at plain
    split at plain <;> cases plain
  · cases plain
  · cases plain
    rfl

/-- An argument in front of the command ends the reading, says the level, or has it said by the next
argument. -/
theorem readArguments_front (env : Environment) (unnamed : Subcommand.ofName? text = none)
    (log? : Option LogLevel) :
    (∃ stop, ∀ next rest, readArguments env log? (text :: next :: rest) = .error stop) ∨
    (∃ level, ∀ next rest, readArguments env log? (text :: next :: rest) =
      level >>= fun level => readArguments env (some level) (next :: rest)) ∨
    ∀ next rest, readArguments env log? (text :: next :: rest) =
      (match value? next with
        | none => .error .usage
        | some value => setLog log? value) >>= fun level => readArguments env (some level) rest := by
  have opened (next : String) (rest : List String) :=
    readArguments.eq_def env log? (text :: next :: rest)
  simp only at opened
  cases looks : Argument.ofString text with
  | plain name =>
    obtain rfl := ofString_plain looks
    simp only [looks,unnamed] at opened
    exact .inl ⟨_,opened⟩
  | terminator =>
    simp only [looks] at opened
    exact .inl ⟨_,opened⟩
  | short letters =>
    left
    rcases letters with _ | ⟨letter,letters⟩
    · simp only [looks] at opened
      exact ⟨_,opened⟩
    by_cases version : letter = 'V'
    · simp only [looks,version] at opened
      exact ⟨_,opened⟩
    by_cases help : letter = 'h'
    · simp only [looks,help] at opened
      exact ⟨_,opened⟩
    · simp only [looks] at opened
      exact ⟨.usage,fun next rest => by rw [opened]; split <;> simp_all⟩
  | long name given? =>
    by_cases log : name = "log"
    · subst log
      cases given? with
      | none =>
        simp only [looks] at opened
        refine .inr (.inr fun next rest => ?_)
        rw [opened]
        cases value? next <;> rfl
      | some value =>
        simp only [looks] at opened
        exact .inr (.inl ⟨_,opened⟩)
    left
    cases given? with
    | some value =>
      simp only [looks] at opened
      exact ⟨.usage,fun next rest => by rw [opened]; split <;> simp_all⟩
    | none =>
      by_cases version : name = "version"
      · simp only [looks,version] at opened
        exact ⟨_,opened⟩
      by_cases help : name = "help"
      · simp only [looks,help] at opened
        exact ⟨_,opened⟩
      · simp only [looks] at opened
        exact ⟨.usage,fun next rest => by rw [opened]; split <;> simp_all⟩

theorem readArguments_named (log? : Option LogLevel) (rest : List String) :
    readArguments env log? ("finish-install" :: rest) =
      (readArguments env log? ("install" :: rest)).map Invocation.finishing := by
  have options := readOptions_finishing none (.install none) rest
  have opened (command : Subcommand) (named : String)
      (looks : Argument.ofString named = .plain named)
      (names : Subcommand.ofName? named = some command) :
      readArguments env log? (named :: rest) = (do
        let invocation ← readOptions none command rest
        let inner ← placeLog? env invocation.log?
        let outer ← placeLog? env log?
        return { invocation with log? := (invocation.log?.or log?).or (inner.or outer) }) := by
    rw [readArguments.eq_def]
    simp only [looks,names]
  rw [opened (Subcommand.install none).finishing _ rfl rfl,opened (.install none) _ rfl rfl,options]
  cases readOptions none (.install none) rest with
  | error => rfl
  | ok invocation =>
    simp only [Except.map,bind,Except.bind,Invocation.finishing]
    rcases placeLog? env invocation.log? with _ | inner
    · rfl
    rcases placeLog? env log? with _ | outer <;> rfl

/-- Whatever comes before the command and after it, its name says no more than how it installs. -/
theorem readArguments_finishing (rest : List String) (log? : Option LogLevel) :
    (before : List String) → (∀ text ∈ before, Subcommand.ofName? text = none) →
    readArguments env log? (before ++ "finish-install" :: rest) =
      (readArguments env log? (before ++ "install" :: rest)).map Invocation.finishing
  | [], _ => readArguments_named log? rest
  | text :: before, unnamed => by
    obtain ⟨unnamed,others⟩ := List.forall_mem_cons.mp unnamed
    have tail (name : String) : ∃ next more, before ++ name :: rest = next :: more := by
      cases before <;> exact ⟨_,_,rfl⟩
    obtain ⟨_,_,first⟩ := tail "install"
    obtain ⟨_,_,second⟩ := tail "finish-install"
    rcases readArguments_front env unnamed log? with ⟨stop,ends⟩ | ⟨level,goes⟩ | goes
    · rw [List.cons_append,List.cons_append,first,second,ends,ends]
      rfl
    · rw [List.cons_append,List.cons_append,first,second,goes,goes,← first,← second]
      cases level with
      | error stop => rfl
      | ok level => exact readArguments_finishing rest (some level) before others
    · cases before with
      | nil =>
        -- the name itself is taken for the level, and is none
        rw [List.cons_append,List.cons_append,List.nil_append,List.nil_append,goes,goes]
        cases log? <;> rfl
      | cons next before =>
        have others := (List.forall_mem_cons.mp others).2
        simp only [List.cons_append,goes]
        cases value? next with
        | none => rfl
        | some value =>
          dsimp only
          cases setLog log? value with
          | error stop => rfl
          | ok level => exact readArguments_finishing rest (some level) before others
termination_by before => before.length

end ReleaseInstaller.CommandLine
