import Mathlib.Data.Char
import Mathlib.Data.List.Lex
import GitCacheProxy.Foundation.SortedMap
import GitCacheProxy.Http.Request

/-!
# Rewriting a batch response

`rewrite_download_hrefs` makes the download actions of a batch response point back at
the proxy and replaces what the upstream wants to be sent along.

A document is seen through its paths: what kind of value is where (`Json.view`).  A well-formed
document is determined by this (`eq_of_view`), so that it is enough to know the rewritten
document path by path: outside of `href` and `header` it is the document of the upstream
(`view_rewrite_of_untouched`), and there it does not depend on it
(`view_rewrite_of_touched`).
-/

namespace GitCacheProxy.Lfs

open Http Repo

/-! ## The rewriting -/

/-- `Value::as_u64`; a numeral with a sign, a fraction or an exponent is no `u64`. -/
def asU64 : Json → Option ℕ
  | .number numeral =>
      let value : ℕ := numeral.foldl (fun value digit => 10 * value + (digit.toNat - '0'.toNat)) 0
      if numeral ≠ [] ∧ numeral.all Char.isDigit = true ∧ value < UInt64.size then some value
      else none
  | _ => none

/-- `Value::get_mut` with a string, and a change to what it finds. -/
def modifyMember (key : Text) (change : Json → Json) : Json → Json
  | .object members => .object (SortedMap.modify key change members)
  | other => other

/-- The URL of an object on the proxy. -/
def downloadHref (advertiseBase repo oid : Text) (size : ℕ) : Text :=
  advertiseBase ++ '/' :: (repo ++ lfsMarker ++ oid ++ "?size=".toList ++ Nat.toDigits 10 size)

def authorization (token : Text) : Json :=
  .object [("Authorization".toList, .string ("Bearer ".toList ++ token))]

def rewriteDownload (advertiseBase repo : Text) (serveToken : Option Text) (oid : Text) (size : ℕ) :
    Json → Json
  | .object download =>
      let download := SortedMap.insert "href".toList
        (.string (downloadHref advertiseBase repo oid size)) download
      match serveToken with
      | some token => .object (SortedMap.insert "header".toList (authorization token) download)
      | none => .object (SortedMap.erase "header".toList download)
  | other => other

/-- The body of the loop over the objects. -/
def rewriteObject (advertiseBase repo : Text) (serveToken : Option Text) (obj : Json) : Json :=
  match (obj.get "oid".toList).bind Json.asStr with
  | none => obj
  | some oid =>
      let size := ((obj.get "size".toList).bind asU64).getD 0
      modifyMember "actions".toList (modifyMember "download".toList
        (rewriteDownload advertiseBase repo serveToken oid size)) obj

def rewriteObjects (advertiseBase repo : Text) (serveToken : Option Text) : Json → Json
  | .array objects => .array (objects.map (rewriteObject advertiseBase repo serveToken))
  | other => other

def rewriteDownloadHrefs (advertiseBase repo : Text) (serveToken : Option Text) : Json → Json :=
  modifyMember "objects".toList (rewriteObjects advertiseBase repo serveToken)

/-! ## Documents -/

/-- The members of every object are sorted by their distinct keys, as in a `BTreeMap`. -/
inductive WellFormed : Json → Prop
  | null : WellFormed .null
  | bool (value : Bool) : WellFormed (.bool value)
  | number (numeral : Text) : WellFormed (.number numeral)
  | string (value : Text) : WellFormed (.string value)
  | array (items : List Json) (all : ∀ item ∈ items, WellFormed item) : WellFormed (.array items)
  | object (members : List (Text × Json)) (sorted : SortedMap.Sorted members)
      (all : ∀ entry ∈ members, WellFormed entry.2) : WellFormed (.object members)

inductive PathStep where
  | index (i : ℕ)
  | member (key : Text)
  deriving DecidableEq

/-- The kind of a value, and the value itself where it has no parts. -/
inductive Shape where
  | null
  | bool (value : Bool)
  | number (numeral : Text)
  | string (value : Text)
  | array
  | object
  deriving DecidableEq

def shape : Json → Shape
  | .null => .null
  | .bool value => .bool value
  | .number numeral => .number numeral
  | .string value => .string value
  | .array _ => .array
  | .object _ => .object

def child : Json → PathStep → Option Json
  | .array items, .index i => items[i]?
  | .object members, .member key => members.lookup key
  | _, _ => none

/-- The value at a path. -/
def at? : Json → List PathStep → Option Json
  | json, [] => some json
  | json, step :: path => (child json step).bind (at? · path)

/-- What is seen at a path. -/
def view (json : Json) (path : List PathStep) : Option Shape := (at? json path).map shape

section Views

variable {json first second : Json} {path : List PathStep} {key : Text} {change : Json → Json}

theorem view_cons (json : Json) (step : PathStep) (path : List PathStep) :
    view json (step :: path) = (child json step).bind (view · path) := by
  rw [view, at?]
  cases child json step with
  | none => rfl
  | some value => rfl

theorem shape_of_view (same : view first [] = view second []) : shape first = shape second :=
  Option.some.inj same

/-- Two optional values that look the same are the same if the values are. -/
theorem option_eq_of_view {one two : Option Json}
    (values : ∀ first ∈ one, ∀ second ∈ two, (∀ path, view first path = view second path) →
      first = second)
    (same : ∀ path, one.bind (view · path) = two.bind (view · path)) : one = two := by
  cases one with
  | none =>
      cases two with
      | none => rfl
      | some second => cases same []
  | some first =>
      cases two with
      | none => cases same []
      | some second => rw [values first rfl second rfl same]

/-- A well-formed document is what is seen of it. -/
theorem eq_of_view (wellFormed : WellFormed first) (wellFormed' : WellFormed second)
    (same : ∀ path, view first path = view second path) : first = second := by
  have root := shape_of_view (same [])
  induction wellFormed generalizing second with
  | null =>
      cases wellFormed' with
      | null => rfl
      | _ => cases root
  | bool value =>
      cases wellFormed' with
      | bool value' =>
          cases root
          rfl
      | _ => cases root
  | number numeral =>
      cases wellFormed' with
      | number numeral' =>
          cases root
          rfl
      | _ => cases root
  | string value =>
      cases wellFormed' with
      | string value' =>
          cases root
          rfl
      | _ => cases root
  | array items all ih =>
      cases wellFormed' with
      | array items' all' =>
          congr 1
          apply List.ext_getElem?
          intro i
          apply option_eq_of_view
          · intro item itemAt item' itemAt' sameItem
            exact ih item (List.mem_of_getElem? itemAt) (all' item' (List.mem_of_getElem? itemAt'))
              sameItem (shape_of_view (sameItem []))
          · intro path
            have samePath := same (.index i :: path)
            rwa [view_cons, view_cons] at samePath
      | _ => cases root
  | object members sorted all ih =>
      cases wellFormed' with
      | object members' sorted' all' =>
          congr 1
          apply SortedMap.eq_of_lookup sorted sorted'
          intro key
          apply option_eq_of_view
          · intro value valueAt value' valueAt' sameValue
            exact ih _ (SortedMap.mem_of_lookup valueAt) (all' _ (SortedMap.mem_of_lookup valueAt'))
              sameValue (shape_of_view (sameValue []))
          · intro path
            have samePath := same (.member key :: path)
            rwa [view_cons, view_cons] at samePath
      | _ => cases root

/-! ## Seeing a change -/

theorem child_modifyMember (key : Text) (change : Json → Json) (json : Json) (step : PathStep) :
    child (modifyMember key change json) step =
      if step = .member key then (child json step).map change else child json step := by
  cases json with
  | object members =>
      cases step with
      | index i => simp [modifyMember, child]
      | member other => simp [modifyMember, child, SortedMap.lookup_modify]
  | _ => cases step <;> simp [modifyMember, child]

theorem shape_modifyMember (key : Text) (change : Json → Json) (json : Json) :
    shape (modifyMember key change json) = shape json := by
  cases json with
  | object members => rfl
  | _ => rfl

/-- A change to a member is seen below this member only. -/
theorem view_modifyMember (key : Text) (change : Json → Json) (json : Json) (path : List PathStep) :
    view (modifyMember key change json) path =
      match path with
      | step :: rest =>
          if step = .member key then (child json step).bind fun value => view (change value) rest
          else view json path
      | [] => view json path := by
  cases path with
  | nil =>
      rw [view, view, at?, at?, Option.map_some, Option.map_some, shape_modifyMember]
  | cons step rest =>
      simp only
      rw [view_cons, child_modifyMember]
      split
      · rw [Option.bind_map]
        rfl
      · rw [view_cons]

end Views

/-! ## What is seen of the rewritten document -/

section Rewriting

variable {advertiseBase repo oid : Text} {serveToken : Option Text} {size : ℕ} {json : Json}
  {path rest : List PathStep} {key : Text}

/-- The two members that are rewritten. -/
def IsRewritten (key : Text) : Prop := key = "href".toList ∨ key = "header".toList

/-- What becomes of them. -/
def rewritten (advertiseBase repo : Text) (serveToken : Option Text) (oid : Text) (size : ℕ)
    (key : Text) : Option Json :=
  if key = "href".toList then some (.string (downloadHref advertiseBase repo oid size))
  else serveToken.map authorization

theorem shape_rewriteDownload (json : Json) :
    shape (rewriteDownload advertiseBase repo serveToken oid size json) = shape json := by
  cases json with
  | object download =>
      simp only [rewriteDownload]
      split
      · rfl
      · rfl
  | _ => rfl

theorem child_rewriteDownload (isRewritten : IsRewritten key) (json : Json) :
    child (rewriteDownload advertiseBase repo serveToken oid size json) (.member key) =
      if shape json = .object then rewritten advertiseBase repo serveToken oid size key
      else none := by
  have apart : "header".toList ≠ "href".toList := by decide
  cases json with
  | object download =>
      simp only [rewriteDownload, shape, if_true, rewritten]
      rcases isRewritten with rfl | rfl
      · cases serveToken with
        | none => simp [child, SortedMap.lookup_erase, SortedMap.lookup_insert]
        | some token => simp [child, SortedMap.lookup_insert]
      · cases serveToken with
        | none => simp [child, SortedMap.lookup_erase]
        | some token => simp [child, SortedMap.lookup_insert]
  | _ => simp [rewriteDownload, child, shape]

theorem child_rewriteDownload_of_other {step : PathStep}
    (other : ∀ key, step = .member key → ¬IsRewritten key) (json : Json) :
    child (rewriteDownload advertiseBase repo serveToken oid size json) step =
      child json step := by
  cases json with
  | object download =>
      cases step with
      | index i =>
          simp only [rewriteDownload]
          split
          · rfl
          · rfl
      | member key =>
          have apart := other key rfl
          simp only [IsRewritten, not_or] at apart
          simp only [rewriteDownload]
          split
          · simp only [child, SortedMap.lookup_insert, if_neg apart.1, if_neg apart.2]
          · simp only [child, SortedMap.lookup_insert, SortedMap.lookup_erase, if_neg apart.1,
              if_neg apart.2]
  | _ => rfl

theorem view_rewriteDownload_of_other
    (other : ∀ key rest, path = .member key :: rest → ¬IsRewritten key) (json : Json) :
    view (rewriteDownload advertiseBase repo serveToken oid size json) path = view json path := by
  cases path with
  | nil =>
      rw [view, view, at?, at?, Option.map_some, Option.map_some, shape_rewriteDownload]
  | cons step rest =>
      rw [view_cons, view_cons, child_rewriteDownload_of_other]
      rintro key rfl
      exact other key rest rfl

theorem get_eq_child (json : Json) (key : Text) : json.get key = child json (.member key) := by
  cases json with
  | object members => rfl
  | _ => rfl

/-- The string and the number that an entry is rewritten with. -/
def entryOid (json : Json) : Option Text := (child json (.member "oid".toList)).bind Json.asStr

def entrySize (json : Json) : ℕ := ((child json (.member "size".toList)).bind asU64).getD 0

theorem rewriteObject_eq (json : Json) :
    rewriteObject advertiseBase repo serveToken json =
      match entryOid json with
      | none => json
      | some oid => modifyMember "actions".toList (modifyMember "download".toList
          (rewriteDownload advertiseBase repo serveToken oid (entrySize json))) json := by
  rw [rewriteObject, get_eq_child, get_eq_child]
  rfl

/-- An entry is rewritten below its download action only. -/
theorem view_rewriteObject_of_other
    (other : ∀ oid key rest, entryOid json = some oid →
      path = .member "actions".toList :: .member "download".toList :: .member key :: rest →
        ¬IsRewritten key) :
    view (rewriteObject advertiseBase repo serveToken json) path = view json path := by
  rw [rewriteObject_eq]
  cases entry : entryOid json with
  | none => rfl
  | some oid =>
      simp only [view_modifyMember]
      cases path with
      | nil => rfl
      | cons step path =>
          simp only
          split
          · rename_i actions
            subst actions
            rw [view_cons]
            congr 1
            funext value
            cases path with
            | nil => rfl
            | cons step path =>
                simp only
                split
                · rename_i download
                  subst download
                  rw [view_cons]
                  congr 1
                  funext value
                  apply view_rewriteDownload_of_other
                  rintro key rest rfl
                  exact other oid key rest entry rfl
                · rfl
          · rfl

theorem at?_modifyMember (key : Text) (change : Json → Json) (json : Json) (rest : List PathStep) :
    at? (modifyMember key change json) (.member key :: rest) =
      (child json (.member key)).bind fun value => at? (change value) rest := by
  rw [at?, child_modifyMember, if_pos rfl, Option.bind_map]
  rfl

/-- The rewritten members of an entry with a download action. -/
theorem at?_rewriteObject (entry : entryOid json = some oid) (isRewritten : IsRewritten key) :
    at? (rewriteObject advertiseBase repo serveToken json)
        (.member "actions".toList :: .member "download".toList :: .member key :: rest) =
      (at? json [.member "actions".toList, .member "download".toList]).bind fun download =>
        if shape download = .object then
          (rewritten advertiseBase repo serveToken oid (entrySize json) key).bind (at? · rest)
        else none := by
  simp only [rewriteObject_eq, entry, at?_modifyMember]
  simp only [at?, child_rewriteDownload isRewritten]
  cases child json (.member "actions".toList) with
  | none => rfl
  | some actions =>
      simp only [Option.bind_some]
      cases child actions (.member "download".toList) with
      | none => rfl
      | some download =>
          simp only [Option.bind_some]
          split
          · rfl
          · rfl

theorem view_rewriteObjects (json : Json) (path : List PathStep) :
    view (rewriteObjects advertiseBase repo serveToken json) path =
      match path with
      | .index i :: rest => (child json (.index i)).bind fun obj =>
          view (rewriteObject advertiseBase repo serveToken obj) rest
      | path => view json path := by
  cases path with
  | nil =>
      cases json with
      | array items => rfl
      | _ => rfl
  | cons step rest =>
      cases step with
      | index i =>
          cases json with
          | array items =>
              simp only [rewriteObjects, view_cons, child, List.getElem?_map, Option.bind_map]
              rfl
          | _ => rfl
      | member key =>
          cases json with
          | array items => rfl
          | _ => rfl

/-- The path of an entry. -/
def entryPath (i : ℕ) : List PathStep := [.member "objects".toList, .index i]

theorem at?_entryPath (json : Json) (i : ℕ) :
    at? json (entryPath i) =
      (child json (.member "objects".toList)).bind fun objects => child objects (.index i) := by
  rw [entryPath, at?]
  congr 1
  funext objects
  rw [at?]
  cases child objects (.index i) with
  | none => rfl
  | some entry => rfl

/-- The paths to the rewritten members, and below them. -/
structure Touched (json : Json) (path : List PathStep) : Prop where
  reached : ∃ i entry oid key rest, at? json (entryPath i) = some entry ∧
    entryOid entry = some oid ∧ IsRewritten key ∧ path = entryPath i ++
      .member "actions".toList :: .member "download".toList :: .member key :: rest

/-- Nothing else changes. -/
theorem view_rewrite_of_untouched (untouched : ¬Touched json path) :
    view (rewriteDownloadHrefs advertiseBase repo serveToken json) path = view json path := by
  rw [rewriteDownloadHrefs, view_modifyMember]
  cases path with
  | nil => rfl
  | cons step path =>
  simp only
  split
  · rename_i isObjects
    subst isObjects
    rw [view_cons]
    cases objectsAt : child json (.member "objects".toList) with
    | none => rfl
    | some objects =>
    simp only [Option.bind_some, view_rewriteObjects]
    cases path with
    | nil => rfl
    | cons step path =>
    cases step with
    | member key => rfl
    | index i =>
    simp only [view_cons]
    cases entryAt : child objects (.index i) with
    | none => rfl
    | some entry =>
    simp only [Option.bind_some]
    apply view_rewriteObject_of_other
    rintro oid key rest named rfl isRewritten
    refine untouched ⟨i, entry, oid, key, rest, ?_, named, isRewritten, rfl⟩
    rw [at?_entryPath, objectsAt]
    exact entryAt
  · rfl

theorem at?_rewrite_of_touched {i : ℕ} {entry : Json} (entryAt : at? json (entryPath i) = some entry)
    (named : entryOid entry = some oid) (isRewritten : IsRewritten key) (rest : List PathStep) :
    at? (rewriteDownloadHrefs advertiseBase repo serveToken json) (entryPath i ++
        .member "actions".toList :: .member "download".toList :: .member key :: rest) =
      (at? entry [.member "actions".toList, .member "download".toList]).bind fun download =>
        if shape download = .object then
          (rewritten advertiseBase repo serveToken oid (entrySize entry) key).bind (at? · rest)
        else none := by
  rw [← at?_rewriteObject named isRewritten]
  rw [at?_entryPath, Option.bind_eq_some_iff] at entryAt
  rcases entryAt with ⟨objects, objectsAt, foundAt⟩
  cases objects with
  | array items =>
      rw [rewriteDownloadHrefs, entryPath, List.cons_append, at?_modifyMember, objectsAt]
      rw [child] at foundAt
      simp only [Option.bind_some, rewriteObjects, List.cons_append, List.nil_append]
      rw [at?, child, List.getElem?_map, foundAt]
      rfl
  | _ => cases foundAt

end Rewriting

/-! ## Two documents -/

section Documents

variable {advertiseBase repo oid key : Text} {serveToken : Option Text} {size : ℕ}
  {json first second : Json} {path : List PathStep}

theorem wellFormed_modifyMember {change : Json → Json} (wellFormed : WellFormed json)
    (changes : ∀ value, WellFormed value → WellFormed (change value)) :
    WellFormed (modifyMember key change json) := by
  cases wellFormed with
  | object members sorted all =>
      refine .object _ (sorted.modify key change) ?_
      intro entry entryMem
      rcases List.mem_map.mp entryMem with ⟨old, oldMem, rfl⟩
      split
      · exact changes _ (all old oldMem)
      · exact all old oldMem
  | null => exact .null
  | bool value => exact .bool value
  | number numeral => exact .number numeral
  | string value => exact .string value
  | array items all => exact .array items all

theorem wellFormed_authorization (token : Text) : WellFormed (authorization token) := by
  refine .object _ (List.pairwise_singleton _ _) ?_
  intro entry entryMem
  rw [List.mem_singleton] at entryMem
  rw [entryMem]
  exact .string _

theorem wellFormed_rewriteDownload (wellFormed : WellFormed json) :
    WellFormed (rewriteDownload advertiseBase repo serveToken oid size json) := by
  cases wellFormed with
  | object members sorted all =>
      have inserted := sorted.insert "href".toList
        (.string (downloadHref advertiseBase repo oid size))
      have allInserted : ∀ entry ∈ SortedMap.insert "href".toList
          (.string (downloadHref advertiseBase repo oid size)) members, WellFormed entry.2 :=
        SortedMap.forall_insert (.string _) all
      simp only [rewriteDownload]
      split
      · rename_i token
        exact .object _ (inserted.insert _ _)
          (SortedMap.forall_insert (wellFormed_authorization token) allInserted)
      · refine .object _ (inserted.erase _) ?_
        exact fun entry entryMem => allInserted entry (List.mem_of_mem_filter entryMem)
  | null => exact .null
  | bool value => exact .bool value
  | number numeral => exact .number numeral
  | string value => exact .string value
  | array items all => exact .array items all

theorem wellFormed_rewriteObject (wellFormed : WellFormed json) :
    WellFormed (rewriteObject advertiseBase repo serveToken json) := by
  rw [rewriteObject_eq]
  split
  · exact wellFormed
  · refine wellFormed_modifyMember wellFormed fun actions wellFormedActions => ?_
    exact wellFormed_modifyMember wellFormedActions fun _ => wellFormed_rewriteDownload

theorem wellFormed_rewrite (wellFormed : WellFormed json) :
    WellFormed (rewriteDownloadHrefs advertiseBase repo serveToken json) := by
  refine wellFormed_modifyMember wellFormed fun objects wellFormedObjects => ?_
  cases wellFormedObjects with
  | array items all =>
      refine .array _ ?_
      intro item itemMem
      rcases List.mem_map.mp itemMem with ⟨old, oldMem, rfl⟩
      exact wellFormed_rewriteObject (all old oldMem)
  | null => exact .null
  | bool value => exact .bool value
  | number numeral => exact .number numeral
  | string value => exact .string value
  | object members sorted all => exact .object members sorted all

/-- The same is seen at every path as long as those of the parts of an entry that count. -/
def SameAbove (first second : Json) : Prop :=
  ∀ path : List PathStep, path.length ≤ 4 → view first path = view second path

theorem at?_append (json : Json) (path rest : List PathStep) :
    at? json (path ++ rest) = (at? json path).bind (at? · rest) := by
  induction path generalizing json with
  | nil => rfl
  | cons step path ih =>
      rw [List.cons_append, at?, at?, Option.bind_assoc]
      congr 1
      funext value
      exact ih value

theorem view_append (json : Json) (path rest : List PathStep) :
    view json (path ++ rest) = (at? json path).bind (view · rest) := by
  rw [view, at?_append]
  cases at? json path with
  | none => rfl
  | some value => rfl

theorem asStr_congr (same : shape first = shape second) : first.asStr = second.asStr := by
  cases first <;> cases second <;> cases same <;> rfl

theorem asU64_congr (same : shape first = shape second) : asU64 first = asU64 second := by
  cases first <;> cases second <;> cases same <;> rfl

theorem bind_congr_of_shape {Result : Type} {read : Json → Option Result} {one two : Option Json}
    (reads : ∀ first second, shape first = shape second → read first = read second)
    (same : one.map shape = two.map shape) : one.bind read = two.bind read := by
  cases one with
  | none =>
      cases two with
      | none => rfl
      | some second => cases same
  | some first =>
      cases two with
      | none => cases same
      | some second => exact reads first second (Option.some.inj same)

theorem view_singleton (json : Json) (step : PathStep) :
    view json [step] = (child json step).map shape := by
  rw [view_cons]
  cases child json step with
  | none => rfl
  | some value => rfl

/-- The entries of two such documents are rewritten in the same way. -/
theorem SameAbove.entry (same : SameAbove first second) {i : ℕ} {entry : Json}
    (entryAt : at? first (entryPath i) = some entry) :
    ∃ other, at? second (entryPath i) = some other ∧ entryOid entry = entryOid other ∧
      entrySize entry = entrySize other ∧
      view entry [.member "actions".toList, .member "download".toList] =
        view other [.member "actions".toList, .member "download".toList] := by
  have sameEntry := same (entryPath i) (by simp [entryPath])
  rw [view, entryAt, view] at sameEntry
  rcases Option.map_eq_some_iff.mp sameEntry.symm with ⟨other, otherAt, _⟩
  have below (path : List PathStep) (short : path.length ≤ 2) : view entry path = view other path := by
    have whole := same (entryPath i ++ path) (by simp [entryPath]; omega)
    rwa [view_append, view_append, entryAt, otherAt] at whole
  have member (key : Text) : (child entry (.member key)).map shape =
      (child other (.member key)).map shape := by
    rw [← view_singleton, ← view_singleton]
    exact below _ (by simp)
  refine ⟨other, otherAt, bind_congr_of_shape (fun _ _ => asStr_congr) (member _), ?_,
    below _ (by decide)⟩
  rw [entrySize, entrySize, bind_congr_of_shape (fun _ _ => asU64_congr) (member _)]

theorem SameAbove.symm (same : SameAbove first second) : SameAbove second first :=
  fun path short => (same path short).symm

theorem Touched.of_sameAbove (same : SameAbove first second) (touched : Touched first path) :
    Touched second path := by
  rcases touched.reached with ⟨i, entry, oid, key, rest, entryAt, named, isRewritten, isPath⟩
  rcases same.entry entryAt with ⟨other, otherAt, sameOid, _⟩
  exact ⟨i, other, oid, key, rest, otherAt, sameOid ▸ named, isRewritten, isPath⟩

theorem not_touched_of_short (short : path.length ≤ 4) : ¬Touched json path := by
  rintro ⟨i, entry, oid, key, rest, _, _, _, rfl⟩
  simp only [entryPath, List.length_append, List.length_cons, List.length_nil] at short
  omega

/-- Documents that differ in the rewritten members only are rewritten to the same document. -/
theorem rewrite_eq_of_view (wellFormed : WellFormed first) (wellFormed' : WellFormed second)
    (same : ∀ path, ¬Touched first path → view first path = view second path) :
    rewriteDownloadHrefs advertiseBase repo serveToken first =
      rewriteDownloadHrefs advertiseBase repo serveToken second := by
  have above : SameAbove first second :=
    fun path short => same path (not_touched_of_short short)
  apply eq_of_view (wellFormed_rewrite wellFormed) (wellFormed_rewrite wellFormed')
  intro path
  by_cases touched : Touched first path
  · rcases touched.reached with ⟨i, entry, oid, key, rest, entryAt, named, isRewritten, rfl⟩
    rcases above.entry entryAt with ⟨other, otherAt, sameOid, sameSize, sameDownload⟩
    rw [view, view, at?_rewrite_of_touched entryAt named isRewritten,
      at?_rewrite_of_touched otherAt (sameOid ▸ named) isRewritten, sameSize]
    congr 1
    apply bind_congr_of_shape _ sameDownload
    intro one two sameShape
    rw [sameShape]
  · rw [view_rewrite_of_untouched touched, same path touched, view_rewrite_of_untouched]
    exact fun touched' => touched (touched'.of_sameAbove above.symm)

theorem rewrite_rewrite (wellFormed : WellFormed json) :
    rewriteDownloadHrefs advertiseBase repo serveToken
        (rewriteDownloadHrefs advertiseBase repo serveToken json) =
      rewriteDownloadHrefs advertiseBase repo serveToken json := by
  have above : SameAbove json (rewriteDownloadHrefs advertiseBase repo serveToken json) :=
    fun path short => (view_rewrite_of_untouched (not_touched_of_short short)).symm
  apply rewrite_eq_of_view (wellFormed_rewrite wellFormed) wellFormed
  intro path untouched
  exact view_rewrite_of_untouched fun touched => untouched (touched.of_sameAbove above)

end Documents

/-! ## The batch response -/

structure Document where
  json : Json
  wellFormed : WellFormed json

namespace Document

variable {first second : Document}

theorem ext (same : first.json = second.json) : first = second := by
  cases first
  cases second
  cases same
  rfl

def rewrite (advertiseBase repo : Text) (serveToken : Option Text) (doc : Document) : Document where
  json := rewriteDownloadHrefs advertiseBase repo serveToken doc.json
  wellFormed := wellFormed_rewrite doc.wellFormed

end Document

/-- What the clients of a proxy may rely on, whatever its upstream answers. -/
structure Discreet (serveToken : Option Text) (rewrite : Document → Document) : Prop where
  /-- only `href` and `header` of a download action change, in entries with a string `oid` -/
  frame : ∀ doc path, ¬Touched doc.json path →
    view (rewrite doc).json path = view doc.json path
  /-- nothing of what was there is left -/
  noninterference : ∀ first second : Document,
    (∀ path, ¬Touched first.json path → view first.json path = view second.json path) →
      rewrite first = rewrite second
  /-- the token of the proxy is sent along, if it has one, and nothing else -/
  header : ∀ doc i entry oid members, at? doc.json (entryPath i) = some entry →
    entryOid entry = some oid →
    at? entry [.member "actions".toList, .member "download".toList] = some (.object members) →
      at? (rewrite doc).json (entryPath i ++ [.member "actions".toList, .member "download".toList,
        .member "header".toList]) = serveToken.map authorization
  idempotent : ∀ doc, rewrite (rewrite doc) = rewrite doc

theorem rewrite_discreet (advertiseBase repo : Text) (serveToken : Option Text) :
    Discreet serveToken (Document.rewrite advertiseBase repo serveToken) where
  frame _ _ untouched := view_rewrite_of_untouched untouched
  noninterference first second same :=
    Document.ext (rewrite_eq_of_view first.wellFormed second.wellFormed same)
  header doc i entry oid members entryAt named downloadAt := by
    have apart : "header".toList ≠ "href".toList := by decide
    rw [Document.rewrite, at?_rewrite_of_touched entryAt named (Or.inr rfl), downloadAt,
      Option.bind_some, shape, if_pos rfl, rewritten, if_neg apart]
    cases serveToken with
    | none => rfl
    | some token => rfl
  idempotent doc := Document.ext (rewrite_rewrite doc.wellFormed)

end GitCacheProxy.Lfs
