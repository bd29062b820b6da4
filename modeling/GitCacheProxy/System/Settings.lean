import GitCacheProxy.Lfs.Download

/-!
# How the credentials reach the upstream

`main` puts the header for the upstream in a normal form and gives it to both sides.  The LFS side
puts it into its requests; git is told by numbered variables in its environment, where it reads
`GIT_CONFIG_COUNT` pairs of `GIT_CONFIG_KEY_i` and `GIT_CONFIG_VALUE_i`.  The commands inherit the
environment of the proxy, which may hold such variables already.
-/

namespace GitCacheProxy.System

open Repo Http Lfs

/-! ## The configuration -/

/-- The options that the two sides are made of. -/
structure Config where
  upstream : Text
  upstreamAuthHeader : Option Text
  serveToken : Option Text
  bigFileThreshold : Text

structure GitConfig where
  upstreamAuthHeader : Option Text
  bigFileThreshold : Text

namespace Config

variable (cfg : Config)

/-- A blank header is as good as none. -/
def authHeader : Option Text :=
  (cfg.upstreamAuthHeader.map trim).filter fun line => decide (line ≠ [])

def git : GitConfig where
  upstreamAuthHeader := cfg.authHeader
  bigFileThreshold := cfg.bigFileThreshold

def lfs : LfsConfig where
  upstreamBase := trimEnd cfg.upstream
  upstreamAuthHeader := cfg.authHeader
  serveToken := cfg.serveToken

end Config

/-! ## Environments -/

/-- The variables of a process. -/
abbrev Environment := Text → Option Text

/-- `Command::env`, once for every pair. -/
def withVars (inherited : Environment) (vars : List (Text × Text)) : Environment :=
  vars.foldl (fun env var => Function.update env var.1 (some var.2)) inherited

def countVar : Text := "GIT_CONFIG_COUNT".toList

def keyVar (i : ℕ) : Text := "GIT_CONFIG_KEY_".toList ++ Nat.toDigits 10 i

def valueVar (i : ℕ) : Text := "GIT_CONFIG_VALUE_".toList ++ Nat.toDigits 10 i

/-- The variables of the pairs, numbered from `i` on. -/
def numbered (i : ℕ) : List (Text × Text) → List (Text × Text)
  | [] => []
  | (key, value) :: rest => (keyVar i, key) :: (valueVar i, value) :: numbered (i + 1) rest

/-- The configuration of an upstream git command. -/
def configPairs (bigFileThreshold : Text) (authHeader : Option Text) : List (Text × Text) :=
  [("core.bigFileThreshold".toList, bigFileThreshold),
    ("core.deltaBaseCacheLimit".toList, "128m".toList)] ++
    authHeader.toList.map fun header => ("http.extraHeader".toList, header)

def gitConfigEnv (bigFileThreshold : Text) (authHeader : Option Text) : List (Text × Text) :=
  let pairs := configPairs bigFileThreshold authHeader
  (countVar, Nat.toDigits 10 pairs.length) :: numbered 0 pairs

/-- The environment of `fetch_cmd`. -/
def fetchEnv (cfg : GitConfig) (inherited : Environment) : Environment :=
  withVars inherited (("GIT_TERMINAL_PROMPT".toList, "0".toList) :: ("LC_ALL".toList, "C".toList) ::
    gitConfigEnv cfg.bigFileThreshold cfg.upstreamAuthHeader)

/-- What git's protocol lets an environment say. -/
structure Encodes (env : Environment) (pairs : List (Text × Text)) : Prop where
  count : env countVar = some (Nat.toDigits 10 pairs.length)
  pairs : ∀ i pair, pairs[i]? = some pair →
    env (keyVar i) = some pair.1 ∧ env (valueVar i) = some pair.2

/-! ## Assignments -/

section Assignments

variable {inherited : Environment} {vars : List (Text × Text)} {name value : Text}

theorem withVars_of_not_mem (unassigned : ∀ var ∈ vars, var.1 ≠ name) :
    withVars inherited vars name = inherited name := by
  induction vars generalizing inherited with
  | nil => rfl
  | cons var vars ih =>
      rw [withVars, List.foldl_cons, ← withVars,
        ih fun other otherMem => unassigned other (List.mem_cons_of_mem _ otherMem),
        Function.update_of_ne (unassigned var List.mem_cons_self).symm]

theorem withVars_of_mem (once : (vars.map Prod.fst).Nodup) (assigned : (name, value) ∈ vars) :
    withVars inherited vars name = some value := by
  induction vars generalizing inherited with
  | nil => cases assigned
  | cons var vars ih =>
      rw [List.map_cons, List.nodup_cons] at once
      rw [withVars, List.foldl_cons, ← withVars]
      rcases List.mem_cons.mp assigned with isVar | later
      · have unassigned : ∀ other ∈ vars, other.1 ≠ name := by
          rintro other otherMem rfl
          rw [← isVar] at once
          exact once.1 (List.mem_map.mpr ⟨other, otherMem, rfl⟩)
        rw [withVars_of_not_mem unassigned, ← isVar, Function.update_self]
      · exact ih once.2 later

end Assignments

/-! ## Numbered variables -/

section Numbered

variable {i j : ℕ} {name : Text} {pairs : List (Text × Text)}

theorem toDigits_injective : Function.Injective (Nat.toDigits 10) := by
  intro first second same
  have values := congrArg (fun chars => Nat.ofDigitChars 10 chars 0) same
  simpa [Nat.ofDigitChars_toDigits] using values

theorem keyVar_ne_valueVar : keyVar i ≠ valueVar j := by
  intro same
  have begins : "GIT_CONFIG_K".toList = "GIT_CONFIG_V".toList := congrArg (List.take 12) same
  revert begins
  decide

theorem countVar_ne : countVar ≠ keyVar i ∧ countVar ≠ valueVar i := by
  constructor
  · intro same
    have begins : "GIT_CONFIG_C".toList = "GIT_CONFIG_K".toList := congrArg (List.take 12) same
    revert begins
    decide
  · intro same
    have begins : "GIT_CONFIG_C".toList = "GIT_CONFIG_V".toList := congrArg (List.take 12) same
    revert begins
    decide

theorem keyVar_injective : Function.Injective keyVar := by
  intro first second same
  exact toDigits_injective (List.append_cancel_left same)

theorem valueVar_injective : Function.Injective valueVar := by
  intro first second same
  exact toDigits_injective (List.append_cancel_left same)

theorem of_mem_numbered {var : Text × Text} (varMem : var ∈ numbered i pairs) :
    ∃ j, i ≤ j ∧ (var.1 = keyVar j ∨ var.1 = valueVar j) := by
  induction pairs generalizing i with
  | nil => cases varMem
  | cons pair pairs ih =>
      rcases pair with ⟨key, value⟩
      simp only [numbered, List.mem_cons] at varMem
      rcases varMem with rfl | rfl | later
      · exact ⟨i, le_rfl, Or.inl rfl⟩
      · exact ⟨i, le_rfl, Or.inr rfl⟩
      · rcases ih later with ⟨j, beyond, isVar⟩
        exact ⟨j, by omega, isVar⟩

theorem nodup_numbered : ((numbered i pairs).map Prod.fst).Nodup := by
  induction pairs generalizing i with
  | nil => exact List.nodup_nil
  | cons pair pairs ih =>
      rcases pair with ⟨key, value⟩
      have beyond : ∀ name ∈ (numbered (i + 1) pairs).map Prod.fst,
          name ≠ keyVar i ∧ name ≠ valueVar i := by
        intro name nameMem
        rcases List.mem_map.mp nameMem with ⟨var, varMem, rfl⟩
        rcases of_mem_numbered varMem with ⟨j, later, isKey | isValue⟩
        · rw [isKey]
          exact ⟨fun same => by have := keyVar_injective same; omega, keyVar_ne_valueVar⟩
        · rw [isValue]
          exact ⟨keyVar_ne_valueVar.symm, fun same => by have := valueVar_injective same; omega⟩
      simp only [numbered, List.map_cons, List.nodup_cons, List.mem_cons, not_or]
      exact ⟨⟨keyVar_ne_valueVar, fun again => (beyond _ again).1 rfl⟩,
        fun again => (beyond _ again).2 rfl, ih⟩

theorem mem_numbered {index : ℕ} {pair : Text × Text} (found : pairs[index]? = some pair) :
    (keyVar (i + index), pair.1) ∈ numbered i pairs ∧
      (valueVar (i + index), pair.2) ∈ numbered i pairs := by
  induction pairs generalizing i index with
  | nil => cases found
  | cons head pairs ih =>
      rcases head with ⟨key, value⟩
      cases index with
      | zero =>
          cases found
          simp [numbered]
      | succ index =>
          have shifted : i + (index + 1) = i + 1 + index := by omega
          rw [shifted]
          exact ⟨List.mem_cons_of_mem _ (List.mem_cons_of_mem _ (ih found).1),
            List.mem_cons_of_mem _ (List.mem_cons_of_mem _ (ih found).2)⟩

/-- The variables say one thing. -/
theorem Encodes.unique {env : Environment} {others : List (Text × Text)}
    (encodes : Encodes env pairs) (encodesOthers : Encodes env others) : others = pairs := by
  have length : others.length = pairs.length := by
    have same := encodesOthers.count.symm.trans encodes.count
    exact toDigits_injective (Option.some.inj same)
  apply List.ext_getElem length
  intro index inOthers inPairs
  rcases encodesOthers.pairs index _ (List.getElem?_eq_getElem inOthers) with ⟨key, value⟩
  rcases encodes.pairs index _ (List.getElem?_eq_getElem inPairs) with ⟨sameKey, sameValue⟩
  exact Prod.ext (Option.some.inj (key.symm.trans sameKey))
    (Option.some.inj (value.symm.trans sameValue))

end Numbered

/-! ## What the upstream commands get -/

section Fetch

variable {cfg : GitConfig} {inherited : Environment}

theorem named_of_mem_gitConfigEnv {bigFileThreshold : Text} {authHeader : Option Text}
    {var : Text × Text} (varMem : var ∈ gitConfigEnv bigFileThreshold authHeader) :
    "GIT_CONFIG_".toList <+: var.1 := by
  rcases List.mem_cons.mp varMem with rfl | isNumbered
  · exact ⟨"COUNT".toList, rfl⟩
  · rcases of_mem_numbered isNumbered with ⟨i, _, isKey | isValue⟩
    · exact ⟨"KEY_".toList ++ Nat.toDigits 10 i, isKey.symm⟩
    · exact ⟨"VALUE_".toList ++ Nat.toDigits 10 i, isValue.symm⟩

theorem nodup_gitConfigEnv {bigFileThreshold : Text} {authHeader : Option Text} :
    ((gitConfigEnv bigFileThreshold authHeader).map Prod.fst).Nodup := by
  rw [gitConfigEnv, List.map_cons, List.nodup_cons]
  refine ⟨?_, nodup_numbered⟩
  intro countMem
  rcases List.mem_map.mp countMem with ⟨var, varMem, isCount⟩
  rcases of_mem_numbered varMem with ⟨i, _, isKey | isValue⟩
  · exact countVar_ne.1 (isCount.symm.trans isKey)
  · exact countVar_ne.2 (isCount.symm.trans isValue)

theorem nodup_fetchVars {bigFileThreshold : Text} {authHeader : Option Text} :
    ((("GIT_TERMINAL_PROMPT".toList, "0".toList) :: ("LC_ALL".toList, "C".toList) ::
      gitConfigEnv bigFileThreshold authHeader).map Prod.fst).Nodup := by
  have foreign : ∀ name : Text, ¬"GIT_CONFIG_".toList <+: name →
      name ∉ (gitConfigEnv bigFileThreshold authHeader).map Prod.fst := by
    intro name unnamed nameMem
    rcases List.mem_map.mp nameMem with ⟨var, varMem, rfl⟩
    exact unnamed (named_of_mem_gitConfigEnv varMem)
  rw [List.map_cons, List.map_cons, List.nodup_cons, List.nodup_cons, List.mem_cons, not_or]
  exact ⟨⟨by decide, foreign _ (by decide)⟩, foreign _ (by decide), nodup_gitConfigEnv⟩

theorem fetchEnv_of_mem {name value : Text}
    (assigned : (name, value) ∈ gitConfigEnv cfg.bigFileThreshold cfg.upstreamAuthHeader) :
    fetchEnv cfg inherited name = some value :=
  withVars_of_mem nodup_fetchVars (List.mem_cons_of_mem _ (List.mem_cons_of_mem _ assigned))

theorem encodes_fetchEnv : Encodes (fetchEnv cfg inherited)
    (configPairs cfg.bigFileThreshold cfg.upstreamAuthHeader) where
  count := fetchEnv_of_mem List.mem_cons_self
  pairs := by
    intro i pair found
    have numbered := mem_numbered (i := 0) found
    rw [Nat.zero_add] at numbered
    exact ⟨fetchEnv_of_mem (List.mem_cons_of_mem _ numbered.1),
      fetchEnv_of_mem (List.mem_cons_of_mem _ numbered.2)⟩

theorem fetchEnv_of_foreign {name : Text} (unnamed : ¬"GIT_CONFIG_".toList <+: name)
    (notPrompt : name ≠ "GIT_TERMINAL_PROMPT".toList) (notLocale : name ≠ "LC_ALL".toList) :
    fetchEnv cfg inherited name = inherited name := by
  apply withVars_of_not_mem
  intro var varMem isName
  rcases List.mem_cons.mp varMem with rfl | varMem
  · exact notPrompt isName.symm
  rcases List.mem_cons.mp varMem with rfl | varMem
  · exact notLocale isName.symm
  · rw [← isName] at unnamed
    exact unnamed (named_of_mem_gitConfigEnv varMem)

end Fetch

/-! ## The header -/

section Header

variable {text : Text}

theorem trim_eq_nil_iff : trim text = [] ↔ ∀ c ∈ text, Git.isWhitespace c = true := by
  rw [trim, List.rdropWhile_eq_nil_iff, ← List.dropWhile_eq_nil_iff, List.dropWhile_idempotent,
    List.dropWhile_eq_nil_iff]

theorem trim_trim : trim (trim text) = trim text := by
  have begins : (trim text).dropWhile Git.isWhitespace = trim text := by
    rw [List.dropWhile_eq_self_iff]
    intro nonempty
    have within : trim text <+: text.dropWhile Git.isWhitespace := List.rdropWhile_prefix _ _
    have first := List.head_dropWhile_not Git.isWhitespace
      (within.ne_nil (List.ne_nil_of_length_pos nonempty))
    rw [← within.head (List.ne_nil_of_length_pos nonempty), List.head_eq_getElem] at first
    simp [first]
  rw [trim, begins]
  exact List.rdropWhile_idempotent _ _

end Header

/-- What is known of the credentials for the upstream, whatever the proxy has inherited. -/
structure Credentials (cfg : Config) (inherited : Environment) : Prop where
  /-- git is told the configuration, and the header if there is one -/
  encoded : Encodes (fetchEnv cfg.git inherited) (configPairs cfg.bigFileThreshold cfg.authHeader)
  /-- it cannot read anything else -/
  only : ∀ pairs, Encodes (fetchEnv cfg.git inherited) pairs →
    pairs = configPairs cfg.bigFileThreshold cfg.authHeader
  /-- it does not ask for a password, and its diagnostics are in English -/
  unprompted : fetchEnv cfg.git inherited "GIT_TERMINAL_PROMPT".toList = some "0".toList
  english : fetchEnv cfg.git inherited "LC_ALL".toList = some "C".toList
  inherits : ∀ name, ¬"GIT_CONFIG_".toList <+: name → name ≠ "GIT_TERMINAL_PROMPT".toList →
    name ≠ "LC_ALL".toList → fetchEnv cfg.git inherited name = inherited name
  /-- both sides send the same line, or none -/
  agrees : ∀ line, ("http.extraHeader".toList, line) ∈
    configPairs cfg.bigFileThreshold cfg.authHeader ↔ cfg.lfs.upstreamAuthHeader = some line
  /-- it is the configured one without the space around it, unless that is all there is -/
  configured : ∀ line, cfg.lfs.upstreamAuthHeader = some line ↔
    line ≠ [] ∧ ∃ given ∈ cfg.upstreamAuthHeader, line = trim given
  trimmed : ∀ line ∈ cfg.lfs.upstreamAuthHeader, trim line = line
  anonymous : (∀ given ∈ cfg.upstreamAuthHeader, ∀ c ∈ given, Git.isWhitespace c = true) →
    (∀ line, ("http.extraHeader".toList, line) ∉
      configPairs cfg.bigFileThreshold cfg.authHeader) ∧
    postBatchHeaders cfg.lfs "authorization".toList = none

theorem authHeader_eq_some_iff {cfg : Config} {line : Text} : cfg.authHeader = some line ↔
    line ≠ [] ∧ ∃ given ∈ cfg.upstreamAuthHeader, line = trim given := by
  rw [Config.authHeader, Option.filter_eq_some_iff, Option.map_eq_some_iff, decide_eq_true_eq]
  constructor
  · rintro ⟨⟨given, isGiven, rfl⟩, visible⟩
    exact ⟨visible, given, isGiven, rfl⟩
  · rintro ⟨visible, given, isGiven, rfl⟩
    exact ⟨⟨given, isGiven, rfl⟩, visible⟩

theorem mem_configPairs_iff {bigFileThreshold line : Text} {authHeader : Option Text} :
    ("http.extraHeader".toList, line) ∈ configPairs bigFileThreshold authHeader ↔
      authHeader = some line := by
  constructor
  · intro lineMem
    rcases List.mem_append.mp lineMem with fixed | isHeader
    · have others : "http.extraHeader".toList ≠ "core.bigFileThreshold".toList ∧
          "http.extraHeader".toList ≠ "core.deltaBaseCacheLimit".toList := by decide
      rcases List.mem_pair.mp fixed with same | same
      · exact absurd (congrArg Prod.fst same) others.1
      · exact absurd (congrArg Prod.fst same) others.2
    · rcases List.mem_map.mp isHeader with ⟨header, headerMem, same⟩
      have isLine : header = line := congrArg Prod.snd same
      rw [← isLine]
      exact Option.mem_toList.mp headerMem
  · rintro rfl
    exact List.mem_append_right _ List.mem_cons_self

end GitCacheProxy.System
