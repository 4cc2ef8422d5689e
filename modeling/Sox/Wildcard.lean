import Sox.Lib.Glob
import Sox.Auth

/-!
# Wildcard subscriptions

The two guards before a subscription: the tool `channels__subscribe` and the HTTP route both refuse
a pattern by a regular expression on its spelling. Private channels start with `dm/` or `group/`;
`wildcard_private_iff` has which patterns keep away from them.
-/

namespace Sox

/-- `re.match` of `^<pre>.*\*`: a `*` behind the prefix, on the first line. -/
def starBehind (pre : String) (pattern : String) : Bool :=
  pre.toList.isPrefixOf pattern.toList &&
    ((pattern.toList.drop pre.length).takeWhile (· ≠ '\n')).contains '*'

/-- `_RESERVED_WILDCARD` of the tools. -/
def reservedWildcard (pattern : String) : Bool :=
  ["dm", "group"].any fun pre => starBehind (pre ++ "/") pattern

/-- `_wildcard_forbidden` of the routes. -/
def wildcardForbidden (pattern : String) : Bool :=
  ["dm/", "group/"].any fun pre => starBehind pre pattern

/-- The guard of `channels__subscribe`: the text of its `ValueError`. -/
def channelsSubscribeGuard (pattern : String) : Except String Unit :=
  if reservedWildcard pattern then
    .error ("Wildcard subscriptions on reserved prefixes 'dm/' and 'group/' are forbidden. " ++
      "Use an exact channel name or a group lifecycle verb. Got: " ++ Json.reprStr pattern)
  else .ok ()

/-- The guard of `op_subscribe`, with status 400. -/
def opSubscribeGuard (pattern : String) : Except ErrorEnvelope Unit :=
  if wildcardForbidden pattern then
    .error
      { errorCode := "validation_error"
        message := "Wildcard subscriptions on reserved prefixes are forbidden. " ++
          "Pattern '" ++ pattern ++ "' matches dm/* or group/* wildcard restriction."
        detail := .obj [("violations", .arr [.obj [("field", .str "pattern"),
          ("issue", .str ("Wildcard subscriptions on the dm/ or group/ prefix are " ++
            "forbidden. Use an exact channel name instead."))]])] }
  else .ok ()

/-- Both let the pattern through or neither does. -/
def Accepted (pattern : String) : Prop :=
  channelsSubscribeGuard pattern = .ok () ∨ opSubscribeGuard pattern = .ok ()

def HasMeta (pattern : String) : Prop := ∃ c ∈ ['*', '?', '['], c ∈ pattern.toList

def IsPrivate (channel : String) : Prop :=
  ∃ pre ∈ ["dm/", "group/"], ∃ rest, channel.toList = pre.toList ++ rest

theorem fnmatchcase_iff (channel pattern : String) : Glob.fnmatchcase channel pattern = true ↔
    Glob.accepts (Glob.pieces pattern) channel.toList = true := Iff.rfl

theorem accepted_iff (pattern : String) : Accepted pattern ↔ reservedWildcard pattern = false := by
  have hsame : wildcardForbidden pattern = reservedWildcard pattern := rfl
  unfold Accepted channelsSubscribeGuard opSubscribeGuard
  rw [hsame]
  cases reservedWildcard pattern <;> simp

/-- Some private channel matches the pattern exactly when its pieces meet one of the prefixes. -/
theorem matches_private_iff (pattern : String) :
    (∃ channel, IsPrivate channel ∧ Glob.fnmatchcase channel pattern = true) ↔
      ∃ pre ∈ ["dm/", "group/"], Glob.Meets pre.toList (Glob.pieces pattern) := by
  simp only [Glob.meets_iff]
  constructor
  · rintro ⟨channel, ⟨pre, hpre, rest, hchannel⟩, h⟩
    rw [fnmatchcase_iff, hchannel] at h
    exact ⟨pre, hpre, rest, h⟩
  · rintro ⟨pre, hpre, rest, h⟩
    refine ⟨String.ofList (pre.toList ++ rest), ⟨pre, hpre, rest, String.toList_ofList⟩, ?_⟩
    rw [fnmatchcase_iff, String.toList_ofList]
    exact h

/-- A pattern keeps away from the private channels, as far as the guards let it through and it is a
wildcard, exactly when they refuse it, it is none, or its pieces meet neither prefix. -/
theorem wildcard_private_iff (pattern : String) :
    (Accepted pattern → HasMeta pattern → ∀ channel, IsPrivate channel →
      Glob.fnmatchcase channel pattern = false) ↔
    reservedWildcard pattern = true ∨ ¬ HasMeta pattern ∨
      ∀ pre ∈ ["dm/", "group/"], ¬ Glob.Meets pre.toList (Glob.pieces pattern) := by
  have hprivate : (∀ channel, IsPrivate channel → Glob.fnmatchcase channel pattern = false) ↔
      ∀ pre ∈ ["dm/", "group/"], ¬ Glob.Meets pre.toList (Glob.pieces pattern) := by
    have h := not_congr (matches_private_iff pattern)
    simpa only [not_exists, not_and, Bool.not_eq_true] using h
  rw [accepted_iff, hprivate, ← Bool.not_eq_true, imp_iff_not_or, not_not, imp_iff_not_or]

/-- The pattern `*` passes both guards and matches a direct message. -/
theorem star_reaches_private :
    channelsSubscribeGuard "*" = .ok () ∧ opSubscribeGuard "*" = .ok () ∧ HasMeta "*" ∧
      IsPrivate "dm/alice~bob" ∧ Glob.fnmatchcase "dm/alice~bob" "*" = true :=
  ⟨rfl, rfl, ⟨'*', by simp, by decide⟩, ⟨"dm/", by simp, "alice~bob".toList, by decide⟩, by decide⟩

end Sox
