import Mathlib.Data.List.Infix
import Mathlib.Data.List.TakeWhile

/-!
# Refspecs

What `git fetch` documents about the refs that it changes.  A refspec `+src:dst` brings refs of the
remote in, under names of the fetching side; each side may have a `*`, which stands for the same
text in both.  A refspec `^src` leaves refs of the remote out.  With `--prune` a ref goes that was
brought in from one that the remote has no more; tags may come along without a refspec.

A namespace can be mirrored with a part of it left out (`result_mirroring`), and objects can be
asked for by name and kept in a directory (`result_pinning`).
-/

namespace Refspec

universe u

/-! ## Their text -/

/-- One side of a refspec: a name, or what stands around its `*`. -/
inductive Side where
  | exact (name : List Char)
  | pattern (front back : List Char)
  deriving DecidableEq

/-- `+src:dst` and `^src` -/
inductive Spec where
  | forced (src dst : Side)
  | negative (src : Side)
  deriving DecidableEq

def Side.parse (text : List Char) : Side :=
  match text.dropWhile (· ≠ '*') with
  | [] => .exact text
  | _ :: back => .pattern (text.takeWhile (· ≠ '*')) back

/-- Refspecs without a `+` update by fast-forward only; they are not among those read here. -/
def Spec.parse : List Char → Option Spec
  | '^' :: src => some (.negative (.parse src))
  | '+' :: text =>
      match text.dropWhile (· ≠ ':') with
      | [] => none
      | _ :: dst => some (.forced (.parse (text.takeWhile (· ≠ ':'))) (.parse dst))
  | _ => none

theorem Side.parse_of_plain {text : List Char} (plain : '*' ∉ text) :
    Side.parse text = .exact text := by
  have nothing : text.dropWhile (· ≠ '*') = [] := by
    rw [List.dropWhile_eq_nil_iff]
    intro c cMem
    simpa using fun isStar : c = '*' => plain (isStar ▸ cMem)
  rw [Side.parse, nothing]

theorem Spec.parse_forced {src dst : List Char} (plain : ':' ∉ src) :
    Spec.parse ('+' :: (src ++ ':' :: dst)) = some (.forced (.parse src) (.parse dst)) := by
  have before : ∀ c ∈ src, decide (c ≠ ':') = true := by
    intro c cMem
    simpa using fun isColon : c = ':' => plain (isColon ▸ cMem)
  rw [Spec.parse, List.dropWhile_append_of_pos before, List.takeWhile_append_of_pos before]
  simp

/-! ## What they match -/

/-- The text that the `*` stands for; a side without one matches its own name. -/
def Side.match? : Side → List Char → Option (List Char)
  | .exact text, name => if name = text then some [] else none
  | .pattern front back, name =>
      if front <+: name ∧ back <:+ name.drop front.length then
        some ((name.drop front.length).take (name.length - front.length - back.length))
      else none

/-- The name in which the `*` stands for `part`. -/
def Side.fill : Side → List Char → List Char
  | .exact text, _ => text
  | .pattern front back, part => front ++ part ++ back

theorem match?_pattern_isSome {front name : List Char} :
    ((Side.pattern front []).match? name).isSome = true ↔ front <+: name := by
  simp [Side.match?]

/-- A name goes to itself where both sides are the same. -/
theorem map_match?_pattern {α : Type*} {front name : List Char} (f : List Char → α) :
    (((Side.pattern front []).match? name).map fun part => f ((Side.pattern front []).fill part)) =
      if front <+: name then some (f name) else none := by
  by_cases begins : front <+: name
  · rcases begins with ⟨part, rfl⟩
    simp [Side.match?, Side.fill]
  · simp [Side.match?, begins]

/-! ## A fetch -/

/-- Refs with what they point at. -/
abbrev Refs (Oid : Type u) := List (List Char × Oid)

/-- A `git fetch`, by its options. -/
structure Fetch where
  prune : Bool
  noTags : Bool
  specs : List Spec

section Fetch

variable {Oid : Type u}

/-- The refs of the remote that are left out. -/
def excluded (specs : List Spec) (name : List Char) : Bool :=
  specs.any fun
    | .negative src => (src.match? name).isSome
    | .forced _ _ => false

/-- What a refspec brings in.  A source may name an object instead of a ref; if it names neither,
the fetch fails. -/
def Spec.updates (object : List Char → Option Oid) (without : List Char → Bool)
    (remote : Refs Oid) : Spec → Option (Refs Oid)
  | .negative _ => some []
  | .forced (.exact name) dst =>
      match object name with
      | some oid => some [(dst.fill [], oid)]
      | none => ((remote.filter fun entry => !without entry.1).lookup name).map fun oid =>
          [(dst.fill [], oid)]
  | .forced (.pattern front back) dst =>
      some (remote.filterMap fun entry =>
        if without entry.1 then none
        else ((Side.pattern front back).match? entry.1).map fun part => (dst.fill part, entry.2))

namespace Fetch

variable (fetch : Fetch)

def updates (object : List Char → Option Oid) (remote : Refs Oid) : Option (Refs Oid) :=
  (fetch.specs.mapM (Spec.updates object (excluded fetch.specs) remote)).map List.flatten

/-- The refs of the remote that a ref may have been brought in from. -/
def sources (name : List Char) : List (List Char) :=
  fetch.specs.filterMap fun
    | .forced src dst => (dst.match? name).map src.fill
    | .negative _ => none

/-- Whether a ref is pruned. -/
def stale (remote : Refs Oid) (name : List Char) : Bool :=
  fetch.prune && !(fetch.sources name).isEmpty && (fetch.sources name).all fun source =>
    !excluded fetch.specs source && !(remote.map Prod.fst).contains source

/-- The tags that come along with the objects that are fetched. -/
def followed (comes : List Char → Bool) (remote : Refs Oid) : Refs Oid :=
  if fetch.noTags then []
  else remote.filter fun entry => decide ("refs/tags/".toList <+: entry.1) && comes entry.1

/-- The refs after the fetch. -/
def result (updates : Refs Oid) (comes : List Char → Bool) (remote here : Refs Oid) : Refs Oid :=
  let kept := here.filter fun entry =>
    !(updates.map Prod.fst).contains entry.1 && !fetch.stale remote entry.1
  updates ++ kept ++ (fetch.followed comes remote).filter fun entry =>
    !((updates ++ kept).map Prod.fst).contains entry.1

end Fetch

/-! ## A namespace of the remote -/

section Mirroring

/-- Whatever begins with `front` is mirrored, except what begins with `hidden`. -/
def mirroring (front hidden : List Char) : Fetch where
  prune := true
  noTags := false
  specs := [.forced (.pattern front []) (.pattern front []), .negative (.pattern hidden [])]

def Tracked (front hidden name : List Char) : Prop := front <+: name ∧ ¬hidden <+: name

instance (front hidden name : List Char) : Decidable (Tracked front hidden name) :=
  inferInstanceAs (Decidable (_ ∧ _))

variable {front hidden name : List Char} {object : List Char → Option Oid}
  {comes : List Char → Bool} {remote here : Refs Oid}

theorem excluded_mirroring :
    excluded (mirroring front hidden).specs name = decide (hidden <+: name) := by
  rw [Bool.eq_iff_iff, decide_eq_true_eq, ← match?_pattern_isSome]
  simp [excluded, mirroring]

theorem updates_mirroring : (mirroring front hidden).updates object remote =
    some (remote.filter fun entry => decide (Tracked front hidden entry.1)) := by
  have brought : (remote.filterMap fun entry =>
      if excluded (mirroring front hidden).specs entry.1 then none
      else ((Side.pattern front []).match? entry.1).map fun part =>
        ((Side.pattern front []).fill part, entry.2)) =
      remote.filter fun entry => decide (Tracked front hidden entry.1) := by
    rw [← List.filterMap_eq_filter]
    apply List.filterMap_congr
    intro entry _
    rw [excluded_mirroring, map_match?_pattern fun name => (name, entry.2)]
    by_cases isHidden : hidden <+: entry.1
    · simp [isHidden, Tracked, Option.guard]
    · simp [isHidden, Tracked, Option.guard]
  have first : Spec.updates object (excluded (mirroring front hidden).specs) remote
      (.forced (.pattern front []) (.pattern front [])) =
      some (remote.filter fun entry => decide (Tracked front hidden entry.1)) :=
    congrArg some brought
  have second : Spec.updates object (excluded (mirroring front hidden).specs) remote
      (.negative (.pattern hidden [])) = some [] := rfl
  change (List.mapM (Spec.updates object (excluded (mirroring front hidden).specs) remote)
    [_, _]).map List.flatten = _
  rw [List.mapM_cons, List.mapM_cons, first, second]
  simp

theorem sources_mirroring :
    (mirroring front hidden).sources name = if front <+: name then [name] else [] := by
  have source : ((Side.pattern front []).match? name).map (Side.pattern front []).fill =
      if front <+: name then some name else none := map_match?_pattern id
  simp only [Fetch.sources, mirroring, List.filterMap_cons, List.filterMap_nil, source]
  by_cases begins : front <+: name
  · simp [begins]
  · simp [begins]

/-- What is pruned is tracked, and the remote has it no more. -/
theorem stale_mirroring : (mirroring front hidden).stale remote name =
    decide (Tracked front hidden name ∧ name ∉ remote.map Prod.fst) := by
  have prunes : (mirroring front hidden).prune = true := rfl
  rw [Fetch.stale, sources_mirroring, prunes]
  by_cases begins : front <+: name
  · simp only [begins, if_true, List.all_cons, List.all_nil, excluded_mirroring, Tracked]
    by_cases isHidden : hidden <+: name <;> simp [isHidden]
  · simp [begins, Tracked]

/-- If all tags are tracked, those that come along are brought in anyway. -/
theorem followed_mirroring_subset
    (tags : ∀ name, "refs/tags/".toList <+: name → Tracked front hidden name) :
    (mirroring front hidden).followed comes remote ⊆
      remote.filter fun entry => decide (Tracked front hidden entry.1) := by
  intro entry entryMem
  simp only [Fetch.followed, mirroring, Bool.false_eq_true, if_false, List.mem_filter,
    Bool.and_eq_true, decide_eq_true_eq] at entryMem
  rw [List.mem_filter, decide_eq_true_eq]
  exact ⟨entryMem.1, tags _ entryMem.2.1⟩

/-- What is tracked is as the remote has it afterwards; everything else stays. -/
theorem result_mirroring
    (tags : ∀ name, "refs/tags/".toList <+: name → Tracked front hidden name)
    {updates : Refs Oid} (brought : (mirroring front hidden).updates object remote = some updates) :
    (mirroring front hidden).result updates comes remote here =
      (remote.filter fun entry => decide (Tracked front hidden entry.1)) ++
        here.filter fun entry => decide ¬Tracked front hidden entry.1 := by
  rw [updates_mirroring, Option.some.injEq] at brought
  have names (name : List Char) :
      name ∈ updates.map Prod.fst ↔ Tracked front hidden name ∧ name ∈ remote.map Prod.fst := by
    subst brought
    simp only [List.mem_map, List.mem_filter, decide_eq_true_eq]
    constructor
    · rintro ⟨entry, ⟨entryMem, tracked⟩, rfl⟩
      exact ⟨tracked, entry, entryMem, rfl⟩
    · rintro ⟨tracked, entry, entryMem, rfl⟩
      exact ⟨entry, ⟨entryMem, tracked⟩, rfl⟩
  have kept : (here.filter fun entry => !(updates.map Prod.fst).contains entry.1 &&
      !(mirroring front hidden).stale remote entry.1) =
      here.filter fun entry => decide ¬Tracked front hidden entry.1 := by
    apply List.filter_congr
    intro entry _
    rw [stale_mirroring, Bool.eq_iff_iff]
    simp only [List.contains_eq_mem, names, Bool.and_eq_true, Bool.not_eq_true',
      decide_eq_true_eq, decide_eq_false_iff_not]
    tauto
  have nothing : ((mirroring front hidden).followed comes remote).filter (fun entry =>
      !((updates ++ here.filter fun entry =>
        decide ¬Tracked front hidden entry.1).map Prod.fst).contains entry.1) = [] := by
    rw [List.filter_eq_nil_iff]
    intro entry entryMem
    have updated : entry.1 ∈ updates.map Prod.fst := by
      rw [← brought]
      exact List.mem_map_of_mem (followed_mirroring_subset tags entryMem)
    rw [Bool.not_eq_true', Bool.not_eq_false, List.contains_iff_mem, List.map_append]
    exact List.mem_append_left _ updated
  rw [Fetch.result, kept, nothing, List.append_nil, brought]

end Mirroring

/-! ## Objects by name -/

section Pinning

/-- Each object is asked for by name and gets a ref in `dir`. -/
def pinning (dir : List Char) (names : List (List Char)) : Fetch where
  prune := false
  noTags := true
  specs := names.map fun name => .forced (.exact name) (.exact (dir ++ name))

variable {dir : List Char} {names : List (List Char)} {object : List Char → Option Oid}
  {comes : List Char → Bool} {remote here updates : Refs Oid}

theorem updates_exact {without : List Char → Bool} {name target : List Char}
    (absent : name ∉ remote.map Prod.fst) :
    Spec.updates object without remote (.forced (.exact name) (.exact target)) =
      (object name).map fun oid => [(target, oid)] := by
  cases named : object name with
  | some oid => simp [Spec.updates, named, Side.fill]
  | none =>
      have unknown : (remote.filter fun entry => !without entry.1).lookup name = none := by
        rw [List.lookup_eq_none_iff]
        intro entry entryMem
        rw [bne_iff_ne]
        rintro rfl
        exact absent (List.mem_map.mpr ⟨entry, (List.mem_filter.mp entryMem).1, rfl⟩)
      simp [Spec.updates, named, unknown]

/-- If no ref has one of the names, the fetch goes through only if they all name objects. -/
theorem updates_pinning (absent : ∀ name ∈ names, name ∉ remote.map Prod.fst)
    (brought : (pinning dir names).updates object remote = some updates) :
    (∀ name ∈ names, (object name).isSome = true) ∧
      updates = names.filterMap fun name => (object name).map fun oid => (dir ++ name, oid) := by
  rw [Fetch.updates, Option.map_eq_some_iff] at brought
  rcases brought with ⟨lists, read, rfl⟩
  rw [pinning] at read
  generalize excluded _ = without at read
  induction names generalizing lists with
  | nil =>
      cases read
      exact ⟨fun _ nameMem => absurd nameMem List.not_mem_nil, rfl⟩
  | cons name names ih =>
      simp only [List.map_cons, List.mapM_cons, updates_exact (absent name List.mem_cons_self),
        Option.bind_eq_bind, Option.bind_eq_some_iff, Option.map_eq_some_iff] at read
      rcases read with ⟨_, ⟨oid, named, rfl⟩, rest, readRest, same⟩
      cases same
      rcases ih (fun other otherMem => absent other (List.mem_cons_of_mem _ otherMem)) rest
        readRest with ⟨all, later⟩
      refine ⟨?_, by simp [named, later]⟩
      intro other otherMem
      rcases List.mem_cons.mp otherMem with rfl | otherMem
      · rw [named]
        rfl
      · exact all other otherMem

/-- Nothing but the refs of these objects changes. -/
theorem result_pinning : (pinning dir names).result updates comes remote here =
    updates ++ here.filter fun entry => decide (entry.1 ∉ updates.map Prod.fst) := by
  simp [Fetch.result, Fetch.stale, Fetch.followed, pinning]

end Pinning

end Fetch

end Refspec
