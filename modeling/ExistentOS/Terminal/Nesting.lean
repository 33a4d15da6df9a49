import ExistentOS.Library.Fuel
import ExistentOS.Terminal.LineBuffer

/-!
# More fuel for the interpreter

The fuel of the interpreter limits the nesting of its calls and the rounds of the loops
that wait for strokes or read a file. With more fuel it does the same, unless the fuel was
used up: command by command, the parts that are given fuel are extended.
-/

namespace ExistentOS.Terminal

open Programs Terminated Accounts

variable {σ α : Type} [Word α] {fw : Firmware σ} {fuel fuel' : Nat}

/-- The second routine runs like the first one unless that one has used up its fuel. -/
abbrev Extended {β : Type} (first second : Routine σ β) : Prop := Extends .outOfFuel first second

/-! ## Commands that are given fuel -/

section Commands

variable (more : fuel ≤ fuel')
include more

/-- More fuel only prolongs the reading of a line. -/
theorem extended_terminalReadLine (maxLength : Nat) :
    Extended (terminalReadLine fw fuel maxLength) (terminalReadLine fw fuel' maxLength) :=
  extends_iterate (fun _ => extends_refl _) more _

/-- More fuel only prolongs a round of the editor. -/
theorem extended_nanoRound (lineCount : Nat) :
    Extended (nanoRound fw fuel lineCount) (nanoRound fw fuel' lineCount) :=
  extends_after fun _ => extends_bind (extended_terminalReadLine more _) (fun _ => extends_refl _)

/-- More fuel only prolongs the editor. Its rounds and its loop are given the same fuel, so both
are extended at once. -/
theorem extended_terminalRunNano :
    Extended (terminalRunNano fw fuel) (terminalRunNano fw fuel') :=
  extends_after fun _ => extends_after fun _ =>
    extends_iterate (fun lineCount => extended_nanoRound more lineCount) more 0

/-- More fuel only prolongs the reading of a hidden line. -/
theorem extended_readHidden : Extended (readHidden fw fuel) (readHidden fw fuel') :=
  extends_after fun _ => extends_bind (extended_terminalReadLine more _) (fun _ => extends_refl _)

/-- More fuel only prolongs `passwd`. -/
theorem extended_changePassword : Extended (changePassword fw fuel) (changePassword fw fuel') := by
  refine extends_after fun _ => extends_bind (extended_readHidden more) (fun old => ?_)
  exact extends_after fun _ => extends_bind (extended_readHidden more) (fun new => extends_refl _)

/-- More fuel only prolongs a round of the login. -/
theorem extended_loginRound (round : Unit) :
    Extended (loginRound fw fuel round) (loginRound fw fuel' round) := by
  refine extends_after fun _ => extends_bind (extended_terminalReadLine more _) (fun username => ?_)
  refine extends_ite (extends_refl _) ?_
  exact extends_after fun _ => extends_bind (extended_readHidden more) (fun _ => extends_refl _)

/-- More fuel only prolongs `login`, which ends with a successful round only. -/
theorem extended_terminalLogin : Extended (terminalLogin fw fuel) (terminalLogin fw fuel') :=
  extends_iterate (extended_loginRound more) more ()

/-- More fuel only prolongs `cat`. -/
theorem extended_terminalCatFile (path : Memory) :
    Extended (terminalCatFile fw fuel path) (terminalCatFile fw fuel' path) := by
  refine extends_after fun opened => ?_
  cases opened with
  | none => exact extends_refl _
  | some file => exact extends_iterate (fun _ => extends_refl _) more []

end Commands

/-! ## Scripts -/

section Scripts

variable {exhausted : Stop} {script script' : Memory → Routine σ Bool}
  (inner : ∀ line, Extends exhausted (script line) (script' line))
include inner

/-- The lines of a script are extended one by one. -/
theorem extended_runLines (line : Text) (bytes : List UInt8) :
    Extends exhausted (runLines script line bytes) (runLines script' line bytes) := by
  induction bytes generalizing line with
  | nil =>
    refine extends_ite (extends_after fun command => ?_) (extends_refl _)
    exact extends_bind (inner command) (fun _ => extends_refl _)
  | cons byte rest ih =>
    refine extends_ite (ih line) (extends_ite ?_ (extends_ite ?_ (ih line)))
    · refine extends_after fun command => extends_ite ?_ (ih [])
      exact extends_bind (inner command) (fun _ => ih [])
    · exact extends_after fun grown => ih grown

/-- A script runs on as far as its commands do. -/
theorem extended_terminalSourceFile (path : Memory) :
    Extends exhausted (terminalSourceFile fw script path) (terminalSourceFile fw script' path) := by
  refine extends_after fun opened => ?_
  cases opened with
  | none => exact extends_refl _
  | some file =>
    refine extends_after fun answer => extends_after fun _ => extends_ite (extends_refl _) ?_
    exact extends_after fun bytes =>
      extends_bind (extended_runLines inner [] bytes) (fun _ => extends_refl _)

end Scripts

/-- A command on a file runs on as far as the command on each path does. -/
theorem extended_onFile {exhausted : Stop} (argv : List α)
    {command command' : Memory → Routine σ Bool} (usage : String)
    (acts : ∀ path, Extends exhausted (command path) (command' path)) :
    Extends exhausted (onFile fw argv command usage) (onFile fw argv command' usage) := by
  refine extends_ite (extends_after fun path => ?_) (extends_refl _)
  exact extends_bind (acts path) (fun _ => extends_refl _)

/-! ## The table -/

/-- The rows have the same names, and the second one extends what the first one does. -/
def RowExtends (exhausted : Stop) (row row' : List String × Routine σ Bool) : Prop :=
  row.1 = row'.1 ∧ Extends exhausted row.2 row'.2

/-- The rows are those of the table, in its order. -/
theorem extended_commands {script script' : Memory → Routine σ Bool}
    (inner : ∀ line, Extended (script line) (script' line)) (more : fuel ≤ fuel') (argv : List α)
    (args : Memory) :
    List.Forall₂ (RowExtends .outOfFuel) (commands fw script fuel argv args)
      (commands fw script' fuel' argv args) := by
  have same : ∀ row : List String × Routine σ Bool, RowExtends .outOfFuel row row :=
    fun _ => ⟨rfl, extends_refl _⟩
  unfold commands
  iterate 5 refine .cons (same _) ?_
  refine .cons ⟨rfl, extends_bind (extended_terminalRunNano more) (fun _ => extends_refl _)⟩ ?_
  iterate 2 refine .cons (same _) ?_
  refine .cons ⟨rfl, extended_onFile argv _ (extended_terminalCatFile more)⟩ ?_
  iterate 3 refine .cons (same _) ?_
  refine .cons ⟨rfl, extended_onFile argv _ (extended_terminalSourceFile inner)⟩ ?_
  iterate 26 refine .cons (same _) ?_
  refine .cons ⟨rfl, extends_bind (extended_changePassword more) (fun _ => extends_refl _)⟩ ?_
  refine .cons ⟨rfl, extends_bind (extended_terminalLogin more) (fun _ => extends_refl _)⟩ ?_
  iterate 3 refine .cons (same _) ?_
  exact .nil

/-- Running a command of a table, by induction over the rows. -/
theorem extended_dispatch {exhausted : Stop} (argv : List α) (word : Memory)
    {table table' : List (List String × Routine σ Bool)}
    (rows : List.Forall₂ (RowExtends exhausted) table table') :
    Extends exhausted (dispatch fw argv word table) (dispatch fw argv word table') := by
  induction rows with
  | nil => exact extends_refl _
  | @cons row row' _ _ extended _ ih =>
    simp only [dispatch]
    rw [extended.1]
    refine extends_after fun matched => ?_
    cases matched with
    | none => exact ih
    | some name => exact extends_after fun _ => extended.2

/-! ## The interpreter -/

/-- A line runs on as far as its parts and the rows of the table do. The induction on nested
scripts goes through this step. -/
theorem extended_executeLine {exhausted : Stop} {parse : Memory → Nat → Routine σ (List α)}
    {execute execute' : Memory → Routine σ Bool}
    (inner : ∀ command, Extends exhausted (execute command) (execute' command))
    {table table' : List α → Memory → List (List String × Routine σ Bool)}
    (rows : ∀ argv args, List.Forall₂ (RowExtends exhausted) (table argv args) (table' argv args))
    (command : Memory) :
    Extends exhausted (executeLine fw parse execute table command)
      (executeLine fw parse execute' table' command) := by
  refine extends_after fun argv => extends_after fun args => extends_after fun line => ?_
  refine extends_ite ?_ (extends_after fun piped => ?_)
  · exact extends_bind (inner _) (fun _ => inner _)
  · refine extends_ite (extends_refl _) (extends_ite (extends_refl _) ?_)
    exact extends_after fun word => extended_dispatch argv word (rows argv args)

/-- With more fuel the interpreter does the same, unless its fuel was used up.

Induct over the smaller nesting. -/
theorem interpret_stable (parse : Memory → Nat → Routine σ (List α)) (command : Memory) :
    Stable .outOfFuel fun fuel => interpret fw parse fuel command := by
  intro fuel fuel' more
  induction fuel generalizing fuel' command with
  | zero => exact extends_exhausted _
  | succ fuel ih =>
    obtain ⟨larger, rfl⟩ := Nat.exists_eq_add_of_le' (Nat.zero_lt_of_lt more)
    have inner : ∀ line, Extended (interpret fw parse fuel line) (interpret fw parse larger line) :=
      fun line => ih line larger (Nat.le_of_succ_le_succ more)
    exact extended_executeLine inner
      (fun argv args => extended_commands inner (Nat.le_of_succ_le_succ more) argv args) command

end ExistentOS.Terminal
