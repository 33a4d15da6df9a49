import ExistentOS.Terminal.Dispatch

/-!
# The interpreter under a policy

Which scripts a run may start is a policy on the chain of the paths by which the running scripts
were started. Under a policy, a script that is not admitted and a command that waits for input are
refused by a stop. A run that is not refused is a run of the interpreter, and whether it is refused
does not depend on what stands for the refusal.
-/

namespace ExistentOS.Terminal

open Programs Terminated Accounts

variable {σ α : Type} [Word α] (fw : Firmware σ)

/-! ## Guarded commands -/

/-- The names of the commands that wait for input. These may wait for ever, whatever the volume
holds. -/
def interactiveNames : List (List String) := [["nano"], ["passwd"], ["login"]]

/-- A script whose path, in front of the chain, is admitted. -/
def guardedScript (admits : List Text → Bool) (refusal : Stop)
    (inner : List Text → Memory → Routine σ Bool) (chain : List Text) (path : Memory) :
    Routine σ Bool :=
  if admits ((scan path).getD [] :: chain) then
    terminalSourceFile fw (inner ((scan path).getD [] :: chain)) path
  else throw refusal

/-- A row under a policy: what waits for input is refused, and scripts are run in a given way. -/
def guardedRow (refusal : Stop) (argv : List α) (script : Memory → Routine σ Bool)
    (row : List String × Routine σ Bool) : List String × Routine σ Bool :=
  if row.1 ∈ interactiveNames then (row.1, throw refusal)
  else if row.1 = sourceNames then (row.1, onFile fw argv script "usage: source <script>")
  else row

/-- The interpreter under a policy, inside a chain of scripts. -/
def guarded (parse : Memory → Nat → Routine σ (List α)) (admits : List Text → Bool)
    (refusal : Stop) : Nat → List Text → Memory → Routine σ Bool
  | 0, _, _ => throw .outOfFuel
  | fuel + 1, chain, command =>
    executeLine fw parse (guarded parse admits refusal fuel chain) (fun argv args =>
      (commands fw (interpret fw parse fuel) fuel argv args).map (guardedRow fw refusal argv
        (guardedScript fw admits refusal (guarded parse admits refusal fuel) chain))) command

variable {fw} {parse : Memory → Nat → Routine σ (List α)} {admits : List Text → Bool}
  {refusal : Stop}

/-- A guarded row keeps its names, so the same commands are found. -/
@[simp] theorem guardedRow_names (argv : List α) (script : Memory → Routine σ Bool)
    (row : List String × Routine σ Bool) : (guardedRow fw refusal argv script row).1 = row.1 := by
  unfold guardedRow
  split_ifs <;> rfl

omit [Word α] in
/-- Scripts are extended with the interpreter that runs their lines. -/
theorem extends_guardedScript {exhausted : Stop} {inner inner' : List Text → Memory → Routine σ Bool}
    (extended : ∀ chain line, Extends exhausted (inner chain line) (inner' chain line))
    (chain : List Text) (path : Memory) :
    Extends exhausted (guardedScript fw admits refusal inner chain path)
      (guardedScript fw admits refusal inner' chain path) :=
  extends_ite (extended_terminalSourceFile (extended _) path) (extends_refl _)

/-! ## Runs that are not refused -/

/-- A run that is not refused is a run of the interpreter.

Induct over the nesting, for all chains. -/
theorem extends_guarded (fuel : Nat) (chain : List Text) (command : Memory) :
    Extends refusal (guarded fw parse admits refusal fuel chain command)
      (interpret fw parse fuel command) := by
  induction fuel generalizing chain command with
  | zero => exact extends_refl _
  | succ fuel ih =>
    have scripts : ∀ path, Extends refusal
        (guardedScript fw admits refusal (guarded fw parse admits refusal fuel) chain path)
        (terminalSourceFile fw (interpret fw parse fuel) path) := by
      intro path
      unfold guardedScript
      by_cases admitted : admits ((scan path).getD [] :: chain) = true
      · rw [if_pos admitted]
        exact extended_terminalSourceFile (ih _) path
      · rw [if_neg admitted]
        exact extends_exhausted _
    refine extended_executeLine (ih chain) (fun argv args => ?_) command
    rw [List.forall₂_map_left_iff, List.forall₂_same]
    intro row member
    refine ⟨guardedRow_names argv _ row, ?_⟩
    unfold guardedRow
    by_cases waits : row.1 ∈ interactiveNames
    · rw [if_pos waits]
      exact extends_exhausted _
    rw [if_neg waits]
    by_cases sources : row.1 = sourceNames
    · rw [if_pos sources, commands_unique fw _ _ _ _ member (commands_source fw _ _ _ _) sources]
      exact extended_onFile argv _ scripts
    · rw [if_neg sources]
      exact extends_refl _

/-- With more fuel the guarded interpreter does the same, unless its fuel was used up. -/
theorem guarded_stable (chain : List Text) (command : Memory) :
    Stable .outOfFuel fun fuel => guarded fw parse admits refusal fuel chain command := by
  intro fuel fuel' more
  induction fuel generalizing fuel' chain command with
  | zero => exact extends_exhausted _
  | succ fuel ih =>
    obtain ⟨larger, rfl⟩ := Nat.exists_eq_add_of_le' (Nat.zero_lt_of_lt more)
    have fewer : fuel ≤ larger := Nat.le_of_succ_le_succ more
    have scripts : ∀ path, Extends .outOfFuel
        (guardedScript fw admits refusal (guarded fw parse admits refusal fuel) chain path)
        (guardedScript fw admits refusal (guarded fw parse admits refusal larger) chain path) :=
      extends_guardedScript (fun chain line => ih chain line larger fewer) chain
    refine extended_executeLine (fun line => ih chain line larger fewer) (fun argv args => ?_) command
    rw [List.forall₂_map_left_iff, List.forall₂_map_right_iff]
    refine (extended_commands (fun line => interpret_stable parse line fuel larger fewer) fewer argv
      args).imp ?_
    rintro ⟨names, run⟩ ⟨names', run'⟩ ⟨same, extended⟩
    obtain rfl : names = names' := same
    refine ⟨by simp, ?_⟩
    unfold guardedRow
    by_cases waits : names ∈ interactiveNames
    · rw [if_pos waits, if_pos waits]
      exact extends_refl _
    rw [if_neg waits, if_neg waits]
    by_cases sources : names = sourceNames
    · rw [if_pos sources, if_pos sources]
      exact extended_onFile argv _ scripts
    · rw [if_neg sources, if_neg sources]
      exact extended

/-! ## Line buffers -/

omit [Word α] in
/-- A script is found by its path up to the terminator only. -/
theorem guardedScript_reads (inner : List Text → Memory → Routine σ Bool) (chain : List Text) :
    ReadsString (guardedScript fw admits refusal inner chain) := by
  intro text rest free
  have same : scan (text ++ 0 :: rest) = scan (text ++ [0]) := scan_reads text rest free
  unfold guardedScript
  rw [same, terminalSourceFile_reads fw _ text rest free]

/-- Under a policy too, the interpreter of the source does what the one with tokens of its own
does, whatever the line buffer holds. -/
theorem coupled_guarded (fuel : Nat) (chain : List Text) (line : Vector CHAR16 128)
    (command : Memory) :
    Coupled (AtLine line) (guarded fw terminalParseCommand admits refusal fuel chain command)
      (guarded fw parseFresh admits refusal fuel chain command) Alike := by
  induction fuel generalizing chain line command with
  | zero => exact coupled_throw Stop.outOfFuel
  | succ fuel ih =>
    have scripts : ∀ (line : Vector CHAR16 128) (token : Text), Coupled (AtLine line)
        (guardedScript fw admits refusal
          (guarded fw terminalParseCommand admits refusal fuel) chain (token ++ [0]))
        (guardedScript fw admits refusal
          (guarded fw parseFresh admits refusal fuel) chain (token ++ [0])) Alike := by
      intro line token
      exact coupled_ite Iff.rfl (fun _ => coupled_terminalSourceFile
        (fun line text => ih _ line (text ++ [0])) line (token ++ [0]))
        (fun _ => coupled_throw refusal)
    refine coupled_executeLine (ih chain) (fun line argv found args held => ?_) line command
    rw [List.forall₂_map_left_iff, List.forall₂_map_right_iff]
    refine (mirrors_commands held (fun line text => coupled_interpret fuel line (text ++ [0])) fuel
      args).imp ?_
    rintro ⟨names, run⟩ ⟨names', run'⟩ ⟨same, acts⟩
    obtain rfl : names = names' := same
    refine ⟨by simp, ?_⟩
    unfold guardedRow
    by_cases waits : names ∈ interactiveNames
    · rw [if_pos waits, if_pos waits]
      exact coupled_throw refusal
    rw [if_neg waits, if_neg waits]
    by_cases sources : names = sourceNames
    · rw [if_pos sources, if_pos sources]
      exact coupled_onFile held (guardedScript_reads _ chain) _ (scripts line)
    · rw [if_neg sources, if_neg sources]
      exact acts

end ExistentOS.Terminal
