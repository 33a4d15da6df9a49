import Mathlib.Data.Finset.Card
import Mathlib.Logic.Function.Basic

/-!
# Credential registries

An abstract map from names to secrets with at most one current user. One
distinguished name may add users, up to a capacity; every user may replace the
own secret by presenting it. Names and secrets are any types with decidable
equality, and which of them are admissible is a parameter.
-/

namespace Credentials

variable {Name Secret : Type}

/-- Who is known, with which secret, and who is logged in. A registry in which somebody unknown
is logged in, or somebody known has no secret, cannot be built. -/
@[ext]
structure Registry (Name Secret : Type) where
  users : Finset Name
  secret : Name → Option Secret
  current : Option Name
  support : ∀ name, name ∈ users ↔ (secret name).isSome = true
  loggedIn : ∀ name, current = some name → name ∈ users

variable [DecidableEq Name] [DecidableEq Secret]

/-- The registry that knows one user, who is not logged in. -/
def initial (administrator : Name) (secret : Secret) : Registry Name Secret where
  users := {administrator}
  secret := Function.update (fun _ => none) administrator (some secret)
  current := none
  support name := by
    by_cases same : name = administrator
    · simp [same]
    · simp [same]
  loggedIn name somebody := by cases somebody

/-- Nobody is logged in any more. Who is known stays as it was. -/
def Registry.logout (registry : Registry Name Secret) : Registry Name Secret where
  users := registry.users
  secret := registry.secret
  current := none
  support := registry.support
  loggedIn name somebody := by cases somebody

/-- The registry with another secret for a name, which becomes a user if it was
none. -/
def Registry.assign (registry : Registry Name Secret) (name : Name) (secret : Secret) :
    Registry Name Secret where
  users := insert name registry.users
  secret := Function.update registry.secret name (some secret)
  current := registry.current
  support other := by
    by_cases same : other = name
    · simp [same]
    · simp [same, registry.support other]
  loggedIn other somebody := Finset.mem_insert_of_mem (registry.loggedIn other somebody)

/-- Log in with a name and its secret. A failure leaves the registry as it was. -/
def Registry.login (registry : Registry Name Secret) (name : Name) (secret : Secret) :
    Bool × Registry Name Secret :=
  if known : registry.secret name = some secret then
    (true, ⟨registry.users, registry.secret, some name, registry.support, by
      rintro _ ⟨⟩
      rw [registry.support, known]
      rfl⟩)
  else (false, registry)

section Policy

variable (administrator : Name) (capacity : Nat) (allowsName : Name → Prop)
  [DecidablePred allowsName] (allowsSecret : Secret → Prop) [DecidablePred allowsSecret]

/-- The conditions for a new user: an administrator asks, name and secret are valid, there is
room, and the name is new. -/
def Registry.Admits (registry : Registry Name Secret) (name : Name) (secret : Secret) : Prop :=
  registry.current = some administrator ∧ allowsName name ∧ allowsSecret secret ∧
    registry.users.card < capacity ∧ name ∉ registry.users

instance (registry : Registry Name Secret) (name : Name) (secret : Secret) :
    Decidable (registry.Admits administrator capacity allowsName allowsSecret name secret) := by
  unfold Registry.Admits
  infer_instance

/-- Add a user, if the registry admits it. -/
def Registry.add (registry : Registry Name Secret) (name : Name) (secret : Secret) :
    Bool × Registry Name Secret :=
  if registry.Admits administrator capacity allowsName allowsSecret name secret then
    (true, registry.assign name secret)
  else (false, registry)

/-- Replace the secret of the current user, who must know the old one. -/
def Registry.changeSecret (registry : Registry Name Secret) (old new : Secret) :
    Bool × Registry Name Secret :=
  match registry.current with
  | none => (false, registry)
  | some user =>
    if registry.secret user = some old ∧ allowsSecret new then (true, registry.assign user new)
    else (false, registry)

end Policy

/-! ## Laws -/

omit [DecidableEq Secret] in
/-- The first registry knows one secret. -/
theorem initial_secret (administrator name : Name) (secret : Secret) :
    (initial administrator secret).secret name =
      if name = administrator then some secret else none :=
  Function.update_apply (fun _ => none) administrator (some secret) name

omit [DecidableEq Name] [DecidableEq Secret] in
/-- Every user has a secret and nobody else does. -/
theorem Registry.mem_users_iff (registry : Registry Name Secret) (name : Name) :
    name ∈ registry.users ↔ ∃ secret, registry.secret name = some secret := by
  rw [registry.support, Option.isSome_iff_exists]

omit [DecidableEq Secret] in
/-- A new user makes the registry larger by one. -/
theorem Registry.card_assign_new (registry : Registry Name Secret) (name : Name) (secret : Secret)
    (new : name ∉ registry.users) : (registry.assign name secret).users.card =
      registry.users.card + 1 := Finset.card_insert_of_notMem new

omit [DecidableEq Secret] in
/-- A known user does not make the registry larger. -/
theorem Registry.card_assign_known (registry : Registry Name Secret) (name : Name) (secret : Secret)
    (known : name ∈ registry.users) :
    (registry.assign name secret).users.card = registry.users.card :=
  congrArg Finset.card (Finset.insert_eq_of_mem known)

omit [DecidableEq Secret] in
/-- The secret of a name is the one assigned last. -/
theorem Registry.secret_assign (registry : Registry Name Secret) (name other : Name)
    (secret : Secret) : (registry.assign name secret).secret other =
      if other = name then some secret else registry.secret other :=
  Function.update_apply _ _ _ _

end Credentials
