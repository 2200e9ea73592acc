import Retype.Component.Profile

/-!
# Priorities and batches

A profile's priority follows from ordered rules, of which the first that fits
decides. The batches are filled one after the other: each takes, of its
candidates, those that no earlier batch has taken, so that a file is in one
batch only. What is already migrated is in none.
-/

set_option autoImplicit false

namespace Retype

namespace Profile

/-- The priority by the first rule that fits; what fits none is medium. -/
def assignedPriority (p : Profile) : Priority :=
  let depends := p.dependencies.length
  let usage := p.usage.getD {}
  if p.migrated then .migrated
  else if depends ≤ 1 && usage.isCritical then .highest
  else if p.category = .utility && p.tier = .low then .high
  else if p.category = .ui && p.tier = .low && 0 < usage.direct then .high
  else if p.tier = .low && depends ≤ 2 then .medium
  else if p.tier = .medium && 0 < usage.direct then .medium
  else if p.tier.isHigh || (p.category = .feature && 3 < depends) then .low
  else .medium

def withPriority (p : Profile) : Profile := { p with priority := some p.assignedPriority }

/-- Fewer dependencies first, then by path. -/
def easierThan (p q : Profile) : Bool :=
  if p.dependencies.length = q.dependencies.length then p.path ≤ q.path
  else p.dependencies.length < q.dependencies.length

end Profile

namespace Batches

def byEase (profiles : List Profile) : List Profile := profiles.mergeSort Profile.easierThan

/-- The beginning of a list: `tenths` tenths of `whole`, rounded up. -/
def share (tenths whole : Nat) (profiles : List Profile) : List Profile :=
  profiles.take ((whole * tenths + 9) / 10)

/-- The candidates whose paths are not taken yet, each path once. -/
def claim (taken : List String) : List Profile → List Profile
  | [] => []
  | p :: rest =>
    if taken.contains p.path then claim taken rest else p :: claim (p.path :: taken) rest

def unclaimed (taken : List String) (profiles : List Profile) : List Profile :=
  profiles.filter fun p => !taken.contains p.path

structure Ranks where
  pending : List Profile
  highest : List Profile
  high : List Profile
  medium : List Profile
  low : List Profile

def Ranks.ofProfiles (profiles : List Profile) : Ranks :=
  let pending := profiles.filter fun p => p.priority ≠ some .migrated
  let rank (q : Priority) := byEase (pending.filter fun p => p.priority = some q)
  ⟨pending, rank .highest, rank .high, rank .medium, rank .low⟩

def isOf (categories : List Category) (p : Profile) : Bool := categories.contains p.category

/-- The candidates of each batch in turn, given the paths already taken. -/
def candidates (r : Ranks) : List (List String → List Profile) :=
  [fun _ => share 8 r.highest.length r.highest ++ share 3 r.high.length r.high,
   fun taken =>
    let widgets := unclaimed taken (r.high.filter (isOf [.ui, .utility]))
    let simple := unclaimed taken (r.medium.filter fun p => p.category = .ui && p.tier = .low)
    unclaimed taken r.highest ++ share 5 r.high.length widgets ++ share 2 r.medium.length simple,
   fun _ => (r.high ++ r.medium).filter (isOf [.form, .layout]),
   fun _ => r.high ++ r.medium.filter fun p => p.category = .feature && !p.tier.isHigh,
   fun _ => r.medium ++ r.low.filter fun p =>
    p.tier = .medium || (p.category = .feature && !p.tier.isHigh),
   fun _ => byEase r.pending]

def deal (taken : List String) : List (List String → List Profile) → List (List Profile)
  | [] => []
  | batch :: rest =>
    let group := claim taken (batch taken)
    group :: deal (group.map (·.path) ++ taken) rest

def ofProfiles (profiles : List Profile) : List (List Profile) :=
  deal [] (candidates (.ofProfiles profiles))

end Batches

end Retype
