import ExistentOS.Accounts.Invariant
import ExistentOS.Library.Dialogues
import ExistentOS.Terminal.Passwords
import ExistentOS.Terminal.Typing

/-!
# The login

`terminal_login` as a dialogue. It asks for a name until one is given, then for a password, and
starts again unless some account has both. The name is echoed as the terminal is set when it is
asked for; the password is not, and behind it the echo is on.
-/

namespace ExistentOS.Terminal

open Programs Terminated Accounts Dialogues

variable {σ : Type}

/-! ## The dialogue -/

/-- The account that a name and a password log in to. -/
def admitted (table : AccountStorage) (name password : Text) : Option Nat :=
  (search table (credentialsMatch (name ++ [0]) (password ++ [0]))).getD none

/-- Whether a name is echoed, and the name that has been given. Without a name the next line is a
name, and with one it is a password. -/
structure LoginState where
  echo : Bool
  name : Option Text
  deriving DecidableEq

/-- The line that units leave in a buffer for a name or a password. -/
def credential (units : List CHAR16) : Text := editAll credentialMax [] units

/-- The dialogue of `terminal_login`. The table is a parameter, since no line of the dialogue
changes it. -/
def loginDialogue (table : AccountStorage) : Dialogue LoginState (List CHAR16) Text Nat where
  prompt state := if state.name.isNone then [text "login: "] else [text "password: "]
  answer state units :=
    match state.name with
    | none => responses state.echo credentialMax [] units ++ [[carriageReturn, lineFeed]]
    | some name =>
      responses false credentialMax [] units ++ [[carriageReturn, lineFeed]] ++
        if (admitted table name (credential units)).isSome then []
        else [text "invalid credentials", [carriageReturn, lineFeed]]
  next state units :=
    match state.name with
    | none => if credential units = [] then .inl state else .inl ⟨state.echo, some (credential units)⟩
    | some name =>
      match admitted table name (credential units) with
      | some index => .inr index
      | none => .inl ⟨true, none⟩

/-- The machine as the login leaves it, but for the calls: the echo as it is set, and the account
that is logged in. -/
def loggedTo (machine : Machine σ) : LoginState ⊕ Nat → Machine σ
  | .inl state => { machine with terminal := { machine.terminal with echoEnabled := state.echo } }
  | .inr index => { machine with
      terminal := { machine.terminal with echoEnabled := true }
      accounts := { machine.accounts with currentAccount := index } }

/-- What the login does while it takes some lines: it writes its texts, and logs in where the
dialogue ends. -/
def LogsIn (lines : List (List CHAR16)) (texts : List Text) (outcome : LoginState ⊕ Nat)
    (machine after : Machine σ) : Prop :=
  Talks lines texts machine after ∧ OnlyFirmware (loggedTo machine outcome) after

/-- Where the login stands between two rounds: it is about to ask for a name. -/
def loginView (_ : Unit) (machine : Machine σ) : LoginState := ⟨machine.terminal.echoEnabled, none⟩

/-- The parts of a login in turn are one part. -/
theorem LogsIn.then {early late : List (List CHAR16)} {texts later : List Text} {state : LoginState}
    {outcome : LoginState ⊕ Nat} {machine middle after : Machine σ}
    (before : LogsIn early texts (.inl state) machine middle)
    (behind : LogsIn late later outcome middle after) :
    LogsIn (early ++ late) (texts ++ later) outcome machine after := by
  obtain ⟨talks, firmware, trace, rfl⟩ := before
  obtain ⟨talking, further, events, rfl⟩ := behind
  refine ⟨talks.then rfl talking, further, events, ?_⟩
  cases outcome <;> rfl

/-- The login carries its dialogue out, one round of the loop for a name or for a name and a
password. -/
def loginCarrier (table : AccountStorage) :
    Carrier (loginDialogue table) (Machine σ) Unit Bool where
  view := loginView
  value _ := true
  takes := LogsIn
  further := LogsIn.then

/-! ## Rounds -/

/-- The machine with the echo on or off, and otherwise as it is. -/
def withEcho (enabled : Bool) (machine : Machine σ) : Machine σ :=
  { machine with terminal := { machine.terminal with echoEnabled := enabled } }

/-- What a round does with a name and a password. -/
def lookUp (fw : Firmware σ) (name password : Memory) : Routine σ (Unit ⊕ Bool) := do
  if ← accountsLogin name password then return .inr true
  else
    say fw "invalid credentials"
    return .inl ()

section Rounds

variable {fw : Firmware σ} {fuel : Nat} {machine middle last : Machine σ}
  {line typed : Int32 × Memory}

/-- A password is asked for with the echo off, and behind it the echo is on. -/
theorem run_password {prompt : String} (asked : prompt ∈ passwordPrompts) :
    (askPassword fw fuel prompt).run machine = (do
      let line ← ask fw fuel credentialMax (text prompt)
      setEcho true
      return line.2 : Routine σ Memory).run (withEcho false machine) := by
  have hushed : prompted fw prompt machine =
      afterWrites fw (withEcho false machine) [text prompt] := by
    by_cases console : machine.gST.any (·.outputString) <;>
      simp [prompted, afterWrite, withEcho, canWrite, console, Machine.called]
  have shown : (terminalWrite fw (text prompt ++ [0])).run (withEcho false machine) =
      .ok ((), afterWrites fw (withEcho false machine) [text prompt]) :=
    shows_terminalWrite (prompt_free asked) (withEcho false machine)
  rw [run_askPassword asked, hushed, ask, bind_assoc, run_bind_of_ok shown]

/-- Asking for a password is asking for a line with the echo off. -/
theorem askPassword_eq {prompt : String} (asked : prompt ∈ passwordPrompts) :
    askPassword fw fuel prompt = (do
      setEcho false
      let line ← ask fw fuel credentialMax (text prompt)
      setEcho true
      return line.2) := funext fun _ => run_password asked

/-- A password that is typed is the one that is asked for. -/
theorem password_of_run {password : Memory}
    (ran : (askPassword fw fuel "password: ").run machine = .ok (password, last)) :
    ∃ typed reached, (ask fw fuel credentialMax (text "password: ")).run (withEcho false machine) =
      .ok (typed, reached) ∧ password = typed.2 ∧ last = withEcho true reached := by
  rw [run_password (by decide)] at ran
  obtain ⟨typed, reached, asks, closing⟩ := (run_bind_ok _ _ _ _).mp ran
  cases closing
  exact ⟨typed, reached, asks, rfl, rfl⟩

/-- A round asks for a name, and then for a password. -/
theorem loginRound_split : loginRound fw fuel () = (do
    let line ← ask fw fuel credentialMax (text "login: ")
    if line.1 = 0 then return .inl ()
    else
      let password ← askPassword fw fuel "password: "
      lookUp fw line.2 password) := by
  simp only [loginRound_asks, lookUp, ask, constant, bind_assoc]

/-- A name and a password are looked up. -/
theorem run_lookup (name password : Memory) (machine : Machine σ) :
    (lookUp fw name password).run machine =
      match search machine.accounts (credentialsMatch name password) with
      | none => .error (beyond [name, password])
      | some none => .ok (.inl (), afterWrites fw machine
        [text "invalid credentials", [carriageReturn, lineFeed]])
      | some (some index) => .ok (.inr true,
        machine.withAccounts { machine.accounts with currentAccount := index }) := by
  have free : (0 : CHAR16) ∉ text "invalid credentials" := by decide
  have login := run_accountsLogin name password machine
  rw [lookUp]
  rcases found : search machine.accounts (credentialsMatch name password) with _ | _ | index
  · rw [found] at login
    exact run_bind_of_error login
  · rw [found] at login
    rw [run_bind_of_ok login]
    exact run_bind_of_ok (shows_say free machine)
  · rw [found] at login
    rw [run_bind_of_ok login]
    rfl

/-- A round without a name takes one line. -/
theorem carries_blank (table : AccountStorage) {units : List CHAR16}
    (asked : Asked credentialMax (text "login: ") units machine middle line)
    (blank : credential units = []) :
    (loginCarrier table).Carries () [units] (.inl (loginView () middle)) machine middle := by
  have talks := asked.talks
  obtain ⟨firmware, trace, rfl⟩ := asked.frame
  refine ⟨?_, ?_, firmware, trace, rfl⟩
  · simp [Dialogue.reaches, loginDialogue, loginCarrier, loginView, blank]
  · simpa [Dialogue.transcript, loginDialogue, loginCarrier, loginView, blank, Terminal.asked] using talks

/-- A round with a name and a password that no account has takes two lines. -/
theorem carries_refused (table : AccountStorage) {units secret : List CHAR16}
    (asked : Asked credentialMax (text "login: ") units machine middle line)
    (given : credential units ≠ [])
    (answered : Asked credentialMax (text "password: ") secret (withEcho false middle) last typed)
    (refused : admitted table (credential units) (credential secret) = none) :
    (loginCarrier table).Carries () [units, secret]
      (.inl (loginView () (afterWrites fw (withEcho true last)
        [text "invalid credentials", [carriageReturn, lineFeed]])))
      machine (afterWrites fw (withEcho true last)
        [text "invalid credentials", [carriageReturn, lineFeed]]) := by
  have first := asked.talks
  have second : Talks [secret] (Terminal.asked false credentialMax (text "password: ") secret)
    middle (withEcho true last) := answered.talks
  have third := talks_afterWrites fw (withEcho true last)
    [text "invalid credentials", [carriageReturn, lineFeed]]
  have shown := afterWrites_onlyFirmware fw (withEcho true last)
    [text "invalid credentials", [carriageReturn, lineFeed]]
  generalize afterWrites fw (withEcho true last)
    [text "invalid credentials", [carriageReturn, lineFeed]] = after at third shown ⊢
  obtain ⟨firmware, trace, rfl⟩ := asked.frame
  obtain ⟨further, events, rfl⟩ := answered.frame
  obtain ⟨answer, lasting, rfl⟩ := shown
  refine ⟨?_, ?_, answer, lasting, rfl⟩
  · simp [Dialogue.reaches, loginDialogue, loginCarrier, loginView, given, refused, withEcho]
  · have talks := (first.then rfl second).then rfl third
    simpa [Dialogue.transcript, loginDialogue, loginCarrier, loginView, given, refused,
      Terminal.asked] using talks

/-- A round with the name and the password of an account takes two lines. -/
theorem carries_accepted (table : AccountStorage) {units secret : List CHAR16} {index : Nat}
    (asked : Asked credentialMax (text "login: ") units machine middle line)
    (given : credential units ≠ [])
    (answered : Asked credentialMax (text "password: ") secret (withEcho false middle) last typed)
    (accepted : admitted table (credential units) (credential secret) = some index) :
    (loginCarrier table).Carries () [units, secret] (.inr index) machine
      (loggedTo last (.inr index)) := by
  have first := asked.talks
  have second : Talks [secret] (Terminal.asked false credentialMax (text "password: ") secret)
    middle (loggedTo last (.inr index)) := answered.talks
  obtain ⟨firmware, trace, rfl⟩ := asked.frame
  obtain ⟨further, events, rfl⟩ := answered.frame
  refine ⟨?_, ?_, further, events, rfl⟩
  · simp [Dialogue.reaches, loginDialogue, loginCarrier, loginView, given, accepted]
  · have talks := first.then rfl second
    simpa [Dialogue.transcript, loginDialogue, loginCarrier, loginView, given, accepted,
      Terminal.asked] using talks

/-- Where the table stands before a round, and with it the keyboard. -/
def Awaits (table : AccountStorage) (machine : Machine σ) : Prop :=
  canRead machine = true ∧ machine.accounts = table

/-- A frame of the calls keeps the table and the keyboard. -/
theorem Awaits.framed {table : AccountStorage} {after : Machine σ} (awaits : Awaits table machine)
    (frame : OnlyFirmware machine after) : Awaits table after := by
  obtain ⟨_, _, rfl⟩ := frame
  exact awaits

/-- Every round of the login takes lines as the dialogue does. -/
theorem loginRound_carries {table : AccountStorage} {outcome : Unit ⊕ Bool} {after : Machine σ}
    (awaits : Awaits table machine)
    (ran : (loginRound fw fuel ()).run machine = .ok (outcome, after)) :
    (outcome.isLeft → Awaits table after) ∧ ∃ inputs reached,
      (loginCarrier table).Carries () inputs reached machine after ∧
        (loginCarrier table).Agrees after outcome reached := by
  have free : (0 : CHAR16) ∉ text "login: " := by decide
  have freePassword : (0 : CHAR16) ∉ text "password: " := by decide
  rw [loginRound_split] at ran
  obtain ⟨line, middle, asks, rest⟩ := (run_bind_ok _ _ _ _).mp ran
  obtain ⟨units, asked⟩ := asked_of_run (by decide) free awaits.1 asks
  have blank := asked.blank_iff (by decide) (by decide)
  by_cases empty : line.1 = 0
  · rw [if_pos empty] at rest
    cases rest
    exact ⟨fun _ => awaits.framed asked.frame, _, _,
      carries_blank table asked (blank.mp empty), .goes ()⟩
  · rw [if_neg empty] at rest
    obtain ⟨password, hushed, passwords, looks⟩ := (run_bind_ok _ _ _ _).mp rest
    obtain ⟨typed, last, answers, rfl, rfl⟩ := password_of_run passwords
    obtain ⟨reads, found⟩ := awaits.framed asked.frame
    obtain ⟨secret, answered⟩ := asked_of_run (by decide) freePassword
      (show canRead (withEcho false middle) = true from reads) answers
    have hushed : Awaits table (withEcho false middle) := ⟨reads, found⟩
    have kept : Awaits table last := hushed.framed answered.frame
    have given : credential units ≠ [] := fun none => empty (blank.mpr none)
    rw [run_lookup] at looks
    have credentials : admitted table (credential units) (credential secret) =
        (search last.accounts (credentialsMatch line.2 typed.2)).getD none := by
      rw [asked.returned, answered.returned, kept.2]
      rfl
    rcases searched : search last.accounts (credentialsMatch line.2 typed.2) with _ | _ | index
    · rw [show search (withEcho true last).accounts _ = _ from searched] at looks
      cases looks
    · rw [show search (withEcho true last).accounts _ = _ from searched] at looks
      rw [searched] at credentials
      cases looks
      have shown : Awaits table (withEcho true last) := kept
      exact ⟨fun _ => shown.framed (afterWrites_onlyFirmware fw _ _), _, _,
        carries_refused table asked given answered credentials, .goes ()⟩
    · rw [show search (withEcho true last).accounts _ = _ from searched] at looks
      rw [searched] at credentials
      cases looks
      have carries := carries_accepted table asked given answered credentials
      exact ⟨fun ends => absurd ends (by simp), _, _, carries, .ends index⟩

end Rounds

/-! ## Logging in by the keyboard -/

/-- The lines of a login are to be typed, on a machine with a keyboard and the given table. -/
def LoginReady (keys : σ → List CHAR16) (table : AccountStorage) (fuel : Nat) (rest : List CHAR16)
    (lines : List (List CHAR16)) (machine : Machine σ) : Prop :=
  canRead machine = true ∧
    (∃ current, machine.accounts = { table with currentAccount := current }) ∧
    ToType fuel lines rest (keys machine.firmware)

/-- Who is logged in does not matter for a search. -/
theorem search_current (table : AccountStorage) (current : Int) (test : Account → Option Bool) :
    search { table with currentAccount := current } test = search table test := by
  have each : ∀ left start, searchFrom { table with currentAccount := current } test left start =
      searchFrom table test left start := by
    intro left
    induction left with
    | zero => exact fun _ => rfl
    | succ left ih => intro start; simp [searchFrom, ih]
  exact each table.accountCount 0

/-- In a readable table every name and password are looked up. -/
theorem search_readable {table : AccountStorage} (readable : Readable table) {name password : Memory}
    (nameEnds : (0 : CHAR16) ∈ name) (passwordEnds : (0 : CHAR16) ∈ password) :
    search table (credentialsMatch name password) ≠ none := by
  have decided : ∀ index : Fin fisixMaxUsers, index.val < table.accountCount →
      credentialsMatch name password (table.accounts.get index) =
        some ((credentialsMatch name password (table.accounts.get index)).getD false) := by
    intro index below
    obtain ⟨stored, kept⟩ := readable.terminated index below
    obtain ⟨user, readUser⟩ := Option.ne_none_iff_exists'.mp (scan_ends stored)
    obtain ⟨secret, readSecret⟩ := Option.ne_none_iff_exists'.mp (scan_ends kept)
    obtain ⟨wanted, readWanted⟩ := Option.ne_none_iff_exists'.mp (scan_ends nameEnds)
    obtain ⟨given, readGiven⟩ := Option.ne_none_iff_exists'.mp (scan_ends passwordEnds)
    have names := equal_exact _ _ _ _ readUser readWanted
    have passwords := equal_exact _ _ _ _ readSecret readGiven
    by_cases same : user = wanted <;> simp [credentialsMatch, names, passwords, same]
  have searched := search_exact table (credentialsMatch name password)
    (fun account => (credentialsMatch name password account).getD false) readable.inside decided
  rcases searched with ⟨_, _, found, _⟩ | ⟨found, _⟩ <;> simp [found]

section Keyboards

variable {fw : Firmware σ} {keys : σ → List CHAR16} {fuel : Nat} {table : AccountStorage}
  {rest : List CHAR16} {machine : Machine σ}

/-- A round of the login takes lines that are to be typed. -/
theorem loginRound_returns (keyboard : Keyboard fw keys) (readable : Readable table)
    {lines : List (List CHAR16)} {index : Nat} (ready : LoginReady keys table fuel rest lines machine)
    (ends : (loginDialogue table).reaches (loginView () machine) lines = some (.inr index)) :
    ∃ first later outcome reached after, lines = first ++ later ∧ first ≠ [] ∧
      (loginRound fw fuel ()).run machine = .ok (outcome, after) ∧
      LoginReady keys table fuel rest later after ∧
      (loginCarrier table).Carries () first reached machine after ∧
      (loginCarrier table).Agrees after outcome reached := by
  obtain ⟨console, ⟨current, stored⟩, toType⟩ := ready
  cases lines with
  | nil => simp [Dialogue.reaches] at ends
  | cons units lines =>
    have free : (0 : CHAR16) ∉ text "login: " := by decide
    have freePassword : (0 : CHAR16) ∉ text "password: " := by decide
    obtain ⟨queued, goes, short, toType⟩ := toType.cons
    obtain ⟨line, middle, asks, asked, left⟩ :=
      keyboard.answers credentialMax (by decide) free console goes queued short
    have blank := asked.blank_iff (by decide) (by decide)
    obtain ⟨reads, accounts⟩ : canRead middle = true ∧ middle.accounts = machine.accounts := by
      obtain ⟨_, _, rfl⟩ := asked.frame
      exact ⟨console, rfl⟩
    by_cases empty : credential units = []
    · refine ⟨[units], lines, .inl (), _, middle, rfl, by simp, ?_, ?_,
        carries_blank table asked empty, .goes ()⟩
      · rw [loginRound_split, run_bind_of_ok asks, if_pos (blank.mpr empty)]
        rfl
      · exact ⟨reads, ⟨current, accounts.trans stored⟩, left.symm ▸ toType⟩
    · cases lines with
      | nil => simp [Dialogue.reaches, loginDialogue, loginView, empty] at ends
      | cons secret lines =>
        obtain ⟨queued, goes, short, toType⟩ := toType.cons
        obtain ⟨typed, last, answers, answered, drained⟩ :=
          keyboard.answers credentialMax (by decide) freePassword
            (show canRead (withEcho false middle) = true from reads) goes (left.trans queued) short
        obtain ⟨readsLast, kept⟩ : canRead last = true ∧ last.accounts = middle.accounts := by
          obtain ⟨_, _, rfl⟩ := answered.frame
          exact ⟨reads, rfl⟩
        have stands : last.accounts = { table with currentAccount := current } :=
          kept.trans (accounts.trans stored)
        have password : (askPassword fw fuel "password: ").run middle =
            .ok (typed.2, withEcho true last) := by
          rw [run_password (by decide), run_bind_of_ok answers]
          rfl
        have round : (loginRound fw fuel ()).run machine =
            (lookUp fw line.2 typed.2).run (withEcho true last) := by
          rw [loginRound_split, run_bind_of_ok asks, if_neg fun none => empty (blank.mp none),
            run_bind_of_ok password]
        have searched : search (withEcho true last).accounts (credentialsMatch line.2 typed.2) =
            search table (credentialsMatch (credential units ++ [0]) (credential secret ++ [0])) := by
          rw [show (withEcho true last).accounts = _ from stands, search_current, asked.returned,
            answered.returned]
          rfl
        rw [run_lookup, searched] at round
        rcases found : search table
          (credentialsMatch (credential units ++ [0]) (credential secret ++ [0])) with _ | _ | index
        · exact absurd found (search_readable readable (by simp) (by simp))
        · rw [found] at round
          have refused : admitted table (credential units) (credential secret) = none := by
            simp [admitted, found]
          refine ⟨[units, secret], lines, _, _, _, rfl, by simp, round, ?_,
            carries_refused table asked empty answered refused, .goes ()⟩
          have left := keyboard.unspent (withEcho true last)
            [text "invalid credentials", [carriageReturn, lineFeed]]
          obtain ⟨_, _, same⟩ := afterWrites_onlyFirmware fw (withEcho true last)
            [text "invalid credentials", [carriageReturn, lineFeed]]
          rw [LoginReady, left, same]
          exact ⟨readsLast, ⟨current, stands⟩, drained.symm ▸ toType⟩
        · rw [found] at round
          have accepted : admitted table (credential units) (credential secret) = some index := by
            simp [admitted, found]
          have carries := carries_accepted table asked empty answered accepted
          refine ⟨[units, secret], lines, _, _, _, rfl, by simp, round, ?_, carries, .ends index⟩
          refine ⟨readsLast, ⟨index, ?_⟩, drained.symm ▸ toType⟩
          simp [withEcho, stands]

end Keyboards

/-! ## Exactness -/

/-- The account found by a search is in use and passes the test. -/
theorem searchFrom_found {table : AccountStorage} {test : Account → Option Bool} {left start index : Nat}
    (found : searchFrom table test left start = some (some index)) :
    index < start + left ∧ ∃ account, table.accounts[index]? = some account ∧
      test account = some true := by
  induction left generalizing start with
  | zero => cases found
  | succ left ih =>
    simp only [searchFrom, Option.bind_eq_bind, Option.bind_eq_some_iff] at found
    obtain ⟨account, stored, passed, tested, chosen⟩ := found
    cases passed with
    | true =>
      obtain rfl : start = index := by simpa using chosen
      exact ⟨by omega, account, stored, tested⟩
    | false =>
      obtain ⟨below, further⟩ := ih (by simpa using chosen)
      exact ⟨by omega, further⟩

/-- Whoever is admitted has the name and the password of an account in use. -/
theorem admitted_texts {table : AccountStorage} {name password : Text} {index : Nat}
    (free : (0 : CHAR16) ∉ name) (freePassword : (0 : CHAR16) ∉ password)
    (accepted : admitted table name password = some index) :
    index < table.accountCount ∧ ∃ account, table.accounts[index]? = some account ∧
      scan account.name.toList = some name ∧ scan account.password.toList = some password := by
  have found : search table (credentialsMatch (name ++ [0]) (password ++ [0])) = some (some index) := by
    simpa [admitted, Option.getD_eq_iff] using accepted
  obtain ⟨below, account, stored, passed⟩ := searchFrom_found found
  have scanned : scan (name ++ [0]) = some name := scan_append name [] free
  have scannedPassword : scan (password ++ [0]) = some password := scan_append password [] freePassword
  simp only [credentialsMatch, Option.bind_eq_bind, Option.bind_eq_some_iff] at passed
  obtain ⟨same, names, passwords⟩ := passed
  cases same with
  | false => simp at passwords
  | true =>
    obtain ⟨user, readName, readUser⟩ := equal_true _ _ names
    obtain ⟨secret, readPassword, readSecret⟩ := equal_true _ _ passwords
    obtain rfl : user = name := by simpa [scanned] using readUser.symm
    obtain rfl : secret = password := by simpa [scannedPassword] using readSecret.symm
    exact ⟨by omega, account, stored, readName, readPassword⟩

/-- A login ends with a name and a password that an account has.

Induct over the lines, with a name given or not. -/
theorem login_ends {table : AccountStorage} {lines : List (List CHAR16)} {state : LoginState}
    {index : Nat} (ends : (loginDialogue table).reaches state lines = some (.inr index)) :
    (∃ earlier name secret, lines = earlier ++ [name, secret] ∧
      admitted table (credential name) (credential secret) = some index) ∨
    ∃ name secret, state.name = some name ∧ lines = [secret] ∧
      admitted table name (credential secret) = some index := by
  induction lines generalizing state with
  | nil => simp [Dialogue.reaches] at ends
  | cons units later ih =>
    obtain ⟨echo, given⟩ := state
    cases given with
    | none =>
      by_cases empty : credential units = []
      · have goes : (loginDialogue table).next ⟨echo, none⟩ units = .inl ⟨echo, none⟩ := by
          simp [loginDialogue, empty]
        rw [Dialogue.reaches_goes goes] at ends
        rcases ih ends with ⟨earlier, name, secret, rfl, found⟩ | ⟨name, _, given, _⟩
        · exact Or.inl ⟨units :: earlier, name, secret, rfl, found⟩
        · cases given
      · have goes : (loginDialogue table).next ⟨echo, none⟩ units =
            .inl ⟨echo, some (credential units)⟩ := by simp [loginDialogue, empty]
        rw [Dialogue.reaches_goes goes] at ends
        rcases ih ends with ⟨earlier, name, secret, rfl, found⟩ | ⟨name, secret, given, rfl, found⟩
        · exact Or.inl ⟨units :: earlier, name, secret, rfl, found⟩
        · obtain rfl : credential units = name := by simpa using given
          exact Or.inl ⟨[], units, secret, rfl, found⟩
    | some name =>
      cases found : admitted table name (credential units) with
      | some place =>
        have next : (loginDialogue table).next ⟨echo, some name⟩ units = .inr place := by
          simp [loginDialogue, found]
        simp only [Dialogue.reaches, next, Option.ite_none_right_eq_some, Option.some.injEq,
          Sum.inr.injEq] at ends
        obtain ⟨rfl, rfl⟩ := ends
        exact Or.inr ⟨name, units, rfl, rfl, found⟩
      | none =>
        have goes : (loginDialogue table).next ⟨echo, some name⟩ units = .inl ⟨true, none⟩ := by
          simp [loginDialogue, found]
        rw [Dialogue.reaches_goes goes] at ends
        rcases ih ends with ⟨earlier, name, secret, rfl, found⟩ | ⟨_, _, given, _⟩
        · exact Or.inl ⟨units :: earlier, name, secret, rfl, found⟩
        · cases given

/-- Without a keyboard the login never ends: every name is empty. -/
theorem terminalLogin_unread {fw : Firmware σ} {rounds fuel : Nat} {machine after : Machine σ}
    {value : Bool} (console : ¬ canRead machine) :
    (iterate .outOfFuel (loginRound fw fuel) rounds ()).run machine ≠ .ok (value, after) := by
  intro ran
  induction rounds generalizing machine with
  | zero => cases ran
  | succ rounds ih =>
    have free : (0 : CHAR16) ∉ text "login: " := by decide
    rw [iterate, loginRound_split, bind_assoc] at ran
    obtain ⟨line, middle, asks, rest⟩ := (run_bind_ok _ _ _ _).mp ran
    obtain ⟨rfl, frame⟩ := ask_unread free console asks
    obtain ⟨reads, _, _⟩ := console_of_frame frame
    exact ih (by rwa [reads]) rest

/-- A login has taken some lines: they lead to an account whose name and password are the last
two of them, and the machine is as the dialogue leaves it. -/
structure LoginTaken (machine after : Machine σ) (lines : List (List CHAR16)) (index : Nat) :
    Prop where
  dialogue : (loginDialogue machine.accounts).reaches (loginView () machine) lines = some (.inr index)
  logsIn : LogsIn lines ((loginDialogue machine.accounts).transcript (loginView () machine) lines)
    (.inr index) machine after
  credentials : ∃ earlier name secret account, lines = earlier ++ [name, secret] ∧
    index < machine.accounts.accountCount ∧ machine.accounts.accounts[index]? = some account ∧
    scan account.name.toList = some (credential name) ∧
    scan account.password.toList = some (credential secret)

/-- What the units of a line leave is terminated behind its last character only. -/
theorem credential_free (units : List CHAR16) : (0 : CHAR16) ∉ credential units :=
  (editAll_within ⟨by decide, List.not_mem_nil⟩ units).2

/-- What is carried through the dialogue to its end is a login that has been taken. -/
theorem loginTaken_of_carries {machine after : Machine σ} {lines : List (List CHAR16)} {index : Nat}
    (carries : (loginCarrier machine.accounts).Carries () lines (.inr index) machine after) :
    LoginTaken machine after lines index := by
  refine ⟨carries.reaches, carries.takes, ?_⟩
  rcases login_ends carries.reaches with ⟨earlier, name, secret, split, found⟩ | ⟨_, _, given, _⟩
  · obtain ⟨below, account, stored, texts⟩ :=
      admitted_texts (credential_free name) (credential_free secret) found
    exact ⟨earlier, name, secret, account, split, below, stored, texts⟩
  · cases given

/-- A login that returns has taken lines from a keyboard. -/
theorem terminalLogin_taken {fw : Firmware σ} {fuel : Nat} {machine after : Machine σ} {value : Bool}
    (ran : (terminalLogin fw fuel).run machine = .ok (value, after)) :
    value = true ∧ canRead machine = true ∧ ∃ lines index, LoginTaken machine after lines index := by
  by_cases console : canRead machine
  · have awaits : Awaits machine.accounts machine := ⟨console, rfl⟩
    obtain ⟨lines, index, rfl, carries⟩ := carries_of_iterate
      (loginCarrier machine.accounts) (Awaits machine.accounts)
      (fun _ _ _ _ awaits ran => loginRound_carries awaits ran) awaits ran
    exact ⟨rfl, console, lines, index, loginTaken_of_carries carries⟩
  · exact absurd ran (terminalLogin_unread console)

/-- Lines that log somebody in are taken once they have been typed. -/
theorem terminalLogin_returns {fw : Firmware σ} {keys : σ → List CHAR16} (keyboard : Keyboard fw keys)
    {machine : Machine σ} (readable : Readable machine.accounts) (console : canRead machine = true)
    {lines : List (List CHAR16)} {index : Nat} {rest : List CHAR16} {fuel : Nat}
    (ends : (loginDialogue machine.accounts).reaches (loginView () machine) lines =
      some (.inr index))
    (toType : ToType fuel lines rest (keys machine.firmware)) (enough : lines.length ≤ fuel) :
    ∃ after, (terminalLogin fw fuel).run machine = .ok (true, after) ∧ keys after.firmware = rest ∧
      LoginTaken machine after lines index := by
  obtain ⟨after, ran, ready, carries⟩ := iterate_carries (loginCarrier machine.accounts) Stop.outOfFuel
    (loginRound fw fuel) (LoginReady keys machine.accounts fuel rest)
    (fun _ _ _ _ ready ends => loginRound_returns keyboard readable ready ends)
    ⟨console, ⟨_, rfl⟩, toType⟩ ends enough
  obtain ⟨_, _, left, _⟩ := ready
  exact ⟨after, ran, by simpa [linesTyped] using left, loginTaken_of_carries carries⟩

/-- `terminal_login` carries its dialogue out. Whatever the firmware answers, it returns only if
there is a keyboard and the lines typed on it end with the name and the password of an account,
which is then logged in, and everything else was a dialogue on the console. On a readable table
it does return once such lines have been typed, with what is typed behind them still to be read. -/
theorem terminalLogin_exact (fw : Firmware σ) (machine : Machine σ) :
    (∀ fuel value after, (terminalLogin fw fuel).run machine = .ok (value, after) →
      value = true ∧ canRead machine = true ∧ ∃ lines index, LoginTaken machine after lines index) ∧
    ∀ keys, Keyboard fw keys → Readable machine.accounts → canRead machine = true →
      ∀ lines index rest fuel,
        (loginDialogue machine.accounts).reaches (loginView () machine) lines = some (.inr index) →
        ToType fuel lines rest (keys machine.firmware) → lines.length ≤ fuel →
        ∃ after, (terminalLogin fw fuel).run machine = .ok (true, after) ∧
          keys after.firmware = rest ∧ LoginTaken machine after lines index :=
  ⟨fun _ _ _ ran => terminalLogin_taken ran,
    fun _ keyboard readable console _ _ _ _ ends toType enough =>
      terminalLogin_returns keyboard readable console ends toType enough⟩

/-- The machine with the built-in account, on which a text is typed. -/
def administered (typed : String) : Machine (List CHAR16) :=
  (Machine.entered (text typed)).withAccounts ((builtIn initialAccounts).getD initialAccounts)

/-- The administrator is admitted at the second attempt. -/
theorem terminalLogin_exact_second : ∃ after,
    (terminalLogin keyboard 20).run (administered "admin\rsecret\r\radmin\rfisix\rexit") =
      .ok (true, after) ∧
    after.accounts.currentAccount = 0 := by
  have readable : Readable (administered "admin\rsecret\r\radmin\rfisix\rexit").accounts :=
    ⟨by decide, by decide +kernel⟩
  obtain ⟨_, returns⟩ := terminalLogin_exact keyboard
    (administered "admin\rsecret\r\radmin\rfisix\rexit")
  obtain ⟨after, ran, _, taken⟩ := returns id keyboard_typed readable rfl
    [text "admin", text "secret", [], text "admin", text "fisix"] 0 (text "exit") 20
    (by decide +kernel) ⟨by decide, by decide⟩ (by decide)
  refine ⟨after, ran, ?_⟩
  obtain ⟨_, _, rfl⟩ := taken.logsIn.2
  rfl

end ExistentOS.Terminal
