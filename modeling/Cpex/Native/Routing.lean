import Cpex.Native.Slots

/-! # Matching a backend against a candidate constraint

`cpex-core/src/extensions/routing.rs`: the half of the routing contract that runs. The host's router
calls `accepts` on each backend it could send the request to. A backend is its labels, looked up by
key, and the order of the cost tiers is the host's. -/

namespace Cpex

/-! ## Model globs -/

/-- `b'*'`. -/
def globStar : UInt8 := 42

/-- The variables of the loop of `glob_match`. The `*` to go back to lies before the pattern index,
and the text index never falls behind the one to resume from. -/
structure GlobCursor where
  pi : Nat := 0
  ti : Nat := 0
  star : Option Nat := none
  resume : Nat := 0
  star_lt : ∀ s, star = some s → s < pi := by simp
  resume_le : resume ≤ ti := by simp

namespace GlobCursor

/-- Before the first byte. -/
def start : GlobCursor := {}

/-- The bytes agree: both indices move on. -/
def advance (c : GlobCursor) : GlobCursor where
  pi := c.pi + 1
  ti := c.ti + 1
  star := c.star
  resume := c.resume
  star_lt := fun s hs => Nat.lt_succ_of_lt (c.star_lt s hs)
  resume_le := Nat.le_succ_of_le c.resume_le

/-- A `*` is met: remember it, and let it stand for nothing first. -/
def meetStar (c : GlobCursor) : GlobCursor where
  pi := c.pi + 1
  ti := c.ti
  star := some c.pi
  resume := c.ti
  star_lt := fun s hs => by cases hs; exact Nat.lt_succ_self _
  resume_le := Nat.le_refl _

/-- A mismatch after the `*` at `s`, which swallows one byte more. -/
def backtrack (c : GlobCursor) (s : Nat) : GlobCursor where
  pi := s + 1
  ti := c.resume + 1
  star := some s
  resume := c.resume + 1
  star_lt := fun s' hs => by cases hs; exact Nat.lt_succ_self _
  resume_le := Nat.le_refl _

/-- How much pattern lies after the remembered `*`; the whole of it and more when there is none. -/
def afterStar (c : GlobCursor) (length : Nat) : Nat :=
  match c.star with
  | none => length + 1
  | some s => length - s

end GlobCursor

/-- The loop of `glob_match`, and the test after it. -/
def globLoop (p t : List UInt8) (c : GlobCursor) : Bool :=
  if _ : c.ti < t.length then
    if p[c.pi]? = t[c.ti]? then globLoop p t c.advance
    else if _ : p[c.pi]? = some globStar then globLoop p t c.meetStar
    else
      match _ : c.star with
      | some s => globLoop p t (c.backtrack s)
      | none => false
  else
    -- What is left of the pattern matches the empty remainder only as a run of stars.
    (p.drop c.pi).all (· == globStar)
termination_by (c.afterStar p.length, t.length - c.resume, t.length - c.ti)
decreasing_by
  -- Only `meetStar` moves the star, to the right; only `backtrack` moves the point to resume from.
  · have : c.advance.afterStar p.length = c.afterStar p.length := rfl
    have : c.advance.ti = c.ti + 1 := rfl
    have : c.advance.resume = c.resume := rfl
    simp only [*]
    exact Prod.Lex.right _ (Prod.Lex.right _ (by omega))
  · refine Prod.Lex.left _ _ ?_
    have hpi : c.pi < p.length :=
      (List.getElem?_eq_some_iff.mp ‹p[c.pi]? = some globStar›).1
    show p.length - c.pi < c.afterStar p.length
    unfold GlobCursor.afterStar
    split
    · omega
    · rename_i s hs
      have := c.star_lt s hs
      omega
  · have hsame : (c.backtrack s).afterStar p.length = c.afterStar p.length := by
      simp only [GlobCursor.afterStar, ‹c.star = some s›, GlobCursor.backtrack]
    have := c.resume_le
    rw [hsame]
    refine Prod.Lex.right _ (Prod.Lex.left _ _ ?_)
    show t.length - (c.resume + 1) < t.length - c.resume
    omega

/-- `glob_match`. -/
def globMatch (pattern text : String) : Bool :=
  globLoop pattern.toUTF8.data.toList text.toUTF8.data.toList .start

/-! ## The labels a constraint is about -/

/-- `LABEL_MODEL`. -/
def labelModel : String := "model"

/-- `LABEL_REGION`. -/
def labelRegion : String := "region"

/-- `LABEL_SITE`. -/
def labelSite : String := "site"

/-- `LABEL_COST_TIER`. -/
def labelCostTier : String := "cost_tier"

/-- `BackendLabels`: the value of a label, if the backend has it. -/
abbrev BackendLabels := String → Option String

/-- An allow-list of `accepts`: set, it wants the label there and one of its entries to match. -/
def allowListed (test : String → String → Bool) (allow : Option (List String))
    (label : Option String) : Bool :=
  match allow with
  | none => true
  | some allow => label.any fun value => allow.any (test · value)

/-- The cost tier ceilings of `accepts`: the backend's tier ranks no higher than any of them. A tier
the host cannot rank, on either side, fails the test. -/
def withinCeilings (tierRank : String → Option Nat) (ceilings : List String)
    (tier : Option String) : Bool :=
  ceilings.isEmpty || (tier.bind tierRank).any fun backendRank =>
    ceilings.all fun ceiling => (tierRank ceiling).any (backendRank ≤ ·)

/-- `CandidateConstraintExtension::accepts`. -/
def CandidateConstraintExtension.accepts (self : CandidateConstraintExtension)
    (backend : BackendLabels) (tierRank : String → Option Nat) : Bool :=
  allowListed globMatch self.allowModels (backend labelModel) &&
  -- A backend without a model passes any deny-list.
  !(backend labelModel).any (fun m => self.denyModels.any (globMatch · m)) &&
  allowListed (· == ·) self.allowRegions (backend labelRegion) &&
  allowListed (· == ·) self.allowSites (backend labelSite) &&
  withinCeilings tierRank self.maxCostTiers (backend labelCostTier) &&
  self.custom.all fun (k, v) => backend k == some v

end Cpex
