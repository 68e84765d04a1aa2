import OdooKernel.Compile.Accelerator
import OdooKernel.Core.Ancestry
import OdooKernel.Rules.Hierarchy
import OdooKernel.Sql.Binding

/-!
# Stored paths and walks

A model with a `parent_path` column has two ways to resolve a hierarchy leaf: by the path, which the
query compares with the paths of the roots, or by walking the parent links one level at a time.  This
module says what the walks find, in any table, and that the paths find the same where they are kept
up to date.

**The walks** find what chains of parents join to the roots, and end in every table: where the links
run in a circle or name no record, too (`walked_iff`).

**The column** is kept up to date where it has, for each record, the ids from a root down to it, each
with a slash behind it (`StoresPaths`).  A path has no character that means something in a pattern,
and a path is the front of another exactly where its ids are (`like_iff`).

* `pathText` — what the column holds.
* **`storedPath_iff`** — both ways find the same records.
-/

namespace OdooKernel

/-! ## The walks -/

namespace Database

variable {db : Database} {table link : String} {roots : List ℤ} {id : ℤ}

/-- **A walk ends with all that a chain of parents joins to its roots**, in any table: where parents
run in circles or are missing, too. -/
theorem walked_iff (db : Database) (table link : String) (roots : List ℤ) (id : ℤ) :
    (id ∈ db.descendants table link roots ↔
      ∃ r ∈ roots, Relation.ReflTransGen (db.IsParent table link) r id) ∧
    (id ∈ db.linkAncestors table link roots ↔
      ∃ r ∈ roots, Relation.ReflTransGen (db.IsParent table link) id r) := by
  refine ⟨mem_descendants, mem_linkAncestors.trans (exists_congr fun r => and_congr_right fun _ => ?_)⟩
  exact Relation.reflTransGen_swap

end Database

/-! ## The column -/

/-- The ids from a root down to a record, each with a slash behind it. -/
def pathText (chain : List ℤ) : List Char :=
  terminated '/' (chain.map fun id => Nat.toDigits 10 id.toNat)

/-- The column of a table holds each record's path. -/
structure StoresPaths (db : Database) (table link : String) : Prop where
  ids : ∀ row ∈ db.table table, ∃ id : ℕ, id < 2 ^ 31 ∧ row.int? "id" = some (id : ℤ)
  unique : ∀ row ∈ db.table table, ∀ row' ∈ db.table table, row.int? "id" = row'.int? "id" → row = row'
  parents : ∀ p i, db.IsParent table link p i → ∃ row ∈ db.table table, row.int? "id" = some p
  paths : ∀ row ∈ db.table table, ∀ id, row.int? "id" = some id →
    ∃ chain, Lineage (db.IsParent table link) id chain ∧
      row.text? "parent_path" = some (String.ofList (pathText chain))

lemma slash_notMem (id : ℤ) : '/' ∉ Nat.toDigits 10 id.toNat := by
  intro h
  exact absurd (Nat.isDigit_of_mem_toDigits (by omega) (by omega) h) (by decide)

lemma toDigits_toNat_inj {i j : ℤ} (hi : 0 ≤ i) (hj : 0 ≤ j)
    (h : Nat.toDigits 10 i.toNat = Nat.toDigits 10 j.toNat) : i = j := by
  have hvalue := congrArg digitsValue h
  rw [digitsValue_toDigits, digitsValue_toDigits] at hvalue
  omega

lemma pathText_prefix_iff {chain chain' : List ℤ} (h : ∀ i ∈ chain, 0 ≤ i) (h' : ∀ i ∈ chain', 0 ≤ i) :
    pathText chain <+: pathText chain' ↔ chain <+: chain' := by
  unfold pathText
  rw [terminated_prefix_iff, map_prefix_map_iff]
  · exact fun i hi j hj => toDigits_toNat_inj (h i hi) (h' j hj)
  · intro w hw
    obtain ⟨id, -, rfl⟩ := List.mem_map.mp hw
    exact slash_notMem id
  · intro w hw
    obtain ⟨id, -, rfl⟩ := List.mem_map.mp hw
    exact slash_notMem id

/-- A path has no character that means something in a pattern. -/
lemma isLiteral_pathText {chain : List ℤ} : ∀ c ∈ pathText chain, isLiteral c := by
  intro c hc
  obtain ⟨w, hw, hc⟩ := List.mem_flatMap.mp hc
  obtain ⟨id, -, rfl⟩ := List.mem_map.mp hw
  rcases List.mem_append.mp hc with hc | hc
  · have hdigit := Nat.isDigit_of_mem_toDigits (by omega) (by omega) hc
    refine ⟨?_, ?_, ?_⟩ <;> rintro rfl <;> exact absurd hdigit (by decide)
  · rw [List.mem_singleton.mp hc]
    exact ⟨by decide, by decide, by decide⟩

/-- A pattern that ends in a wildcard matches what it is in front of. -/
lemma likeChars_front {front text : List Char} (h : ∀ c ∈ front, isLiteral c) :
    likeChars (front ++ ['%']) text = true ↔ front <+: text := by
  induction front generalizing text with
  | nil =>
      rw [List.nil_append, likeChars_percent]
      exact iff_of_true ⟨text, [], by simp, rfl⟩ List.nil_prefix
  | cons c front ih =>
      rw [List.forall_mem_cons] at h
      rw [List.cons_append, likeChars_literal h.1]
      constructor
      · rintro ⟨after, rfl, hafter⟩
        exact List.cons_prefix_cons.mpr ⟨rfl, (ih h.2).mp hafter⟩
      · rintro ⟨rest, rfl⟩
        exact ⟨front ++ rest, rfl, (ih h.2).mpr (List.prefix_append _ _)⟩

lemma readInteger_toDigits {n : ℕ} (hn : n < 2 ^ 31) : readInteger (Nat.toDigits 10 n) = some (n : ℤ) := by
  obtain ⟨d, ds, hdigits, hd⟩ := head_toDigits n
  have hsign : d ≠ '-' ∧ isSign d = false := by
    refine ⟨?_, ?_⟩
    · rintro rfl
      exact absurd hd (by decide)
    · rw [Bool.eq_false_iff]
      intro hsign
      simp only [isSign, Bool.or_eq_true, decide_eq_true_eq] at hsign
      rcases hsign with rfl | rfl <;> exact absurd hd (by decide)
  have hall : (Nat.toDigits 10 n).all Char.isDigit = true :=
    List.all_eq_true.mpr fun c hc => Nat.isDigit_of_mem_toDigits (by omega) (by omega) hc
  have hvalue := digitsValue_toDigits n
  rw [hdigits] at hall hvalue ⊢
  simp only [readInteger, List.head?_cons, Option.any_some, hsign.2, Bool.false_eq_true, if_false,
    List.isEmpty_cons, hall, Bool.not_true, or_self, Option.some.injEq, hsign.1, hvalue]
  rw [if_pos (by omega)]

/-- The segments of a path are the ids that it is made of. -/
lemma readSegments_pathText {chain : List ℤ} (h : ∀ i ∈ chain, 0 ≤ i ∧ i < 2 ^ 31) :
    (pathSegments (String.ofList (pathText chain))).filterMap readInteger = chain := by
  induction chain with
  | nil => rfl
  | cons i chain ih =>
      rw [List.forall_mem_cons] at h
      have hne : Nat.toDigits 10 i.toNat ≠ [] := Nat.toDigits_ne_nil
      have hread : readInteger (Nat.toDigits 10 i.toNat) = some i := by
        rw [readInteger_toDigits (by omega)]
        exact congrArg some (by omega)
      have ih := ih h.2
      unfold pathSegments at ih ⊢
      rw [String.toList_ofList] at ih ⊢
      rw [pathText, List.map_cons, terminated_cons, List.splitOn_append_cons_self,
        List.splitOn_eq_singleton (slash_notMem i), List.singleton_append, List.filter_cons,
        if_pos (decide_eq_true hne), List.filterMap_cons, hread]
      exact congrArg (i :: ·) ih

/-! ## Both ways -/

namespace StoresPaths

variable {db : Database} {table link : String} {roots : List ℤ} {id : ℤ} {row : Row}

lemma one_parent (h : StoresPaths db table link) : ∀ p p' i, db.IsParent table link p i →
    db.IsParent table link p' i → p = p' := by
  rintro p p' i ⟨row, hrow, hlink, hid⟩ ⟨row', hrow', hlink', hid'⟩
  obtain rfl := h.unique row hrow row' hrow' (hid.trans hid'.symm)
  exact Option.some.inj (hlink.symm.trans hlink')

/-- The ancestors of a record are records. -/
lemma ancestor (h : StoresPaths db table link) (hrow : row ∈ db.table table)
    (hid : row.int? "id" = some id) {r : ℤ} (hr : Relation.ReflTransGen (db.IsParent table link) r id) :
    ∃ row ∈ db.table table, row.int? "id" = some r := by
  rcases hr.cases_head with rfl | ⟨i, hparent, -⟩
  · exact ⟨row, hrow, hid⟩
  · exact h.parents r i hparent

/-- The descendants of a record are records. -/
lemma descendant (hrow : row ∈ db.table table) (hid : row.int? "id" = some id) {r : ℤ}
    (hr : Relation.ReflTransGen (db.IsParent table link) id r) :
    ∃ row ∈ db.table table, row.int? "id" = some r := by
  rcases hr.cases_tail with rfl | ⟨i, -, row', hrow', -, hid'⟩
  · exact ⟨row, hrow, hid⟩
  · exact ⟨row', hrow', hid'⟩

lemma range (h : StoresPaths db table link) (hrow : row ∈ db.table table)
    (hid : row.int? "id" = some id) {chain : List ℤ} (hchain : Lineage (db.IsParent table link) id chain) :
    ∀ i ∈ chain, 0 ≤ i ∧ i < 2 ^ 31 := by
  intro i hi
  obtain ⟨row', hrow', hid'⟩ := h.ancestor hrow hid ((hchain.mem_iff h.one_parent).mp hi)
  obtain ⟨n, hn, hid''⟩ := h.ids row' hrow'
  obtain rfl := Option.some.inj (hid'.symm.trans hid'')
  omega

lemma mem_parentPathPrefixes {p : String} : p ∈ db.parentPathPrefixes table roots ↔
    ∃ row ∈ db.table table, ∃ r ∈ roots, row.int? "id" = some r ∧
      ∃ path, row.text? "parent_path" = some path ∧ p = path ++ "%" := by
  simp only [Database.parentPathPrefixes, List.mem_filterMap, List.mem_insertionSort,
    Database.mem_rowsWhere, Option.map_eq_some_iff]
  constructor
  · rintro ⟨_, ⟨row, ⟨hrow, r, hr, hid⟩, _, _, rfl⟩, path, hpath, rfl⟩
    exact ⟨row, hrow, r, hr, hid, path, hpath, rfl⟩
  · rintro ⟨row, hrow, r, hr, hid, path, hpath, rfl⟩
    exact ⟨(r, row.text? "parent_path"), ⟨row, ⟨hrow, r, hr, hid⟩, r, hid, rfl⟩, path, hpath, rfl⟩

/-- The path of a record is in front of another's where it is an ancestor. -/
lemma like_iff (h : StoresPaths db table link) {row row' : Row} (hrow : row ∈ db.table table)
    (hrow' : row' ∈ db.table table) {r id : ℤ} (hr : row.int? "id" = some r)
    (hid : row'.int? "id" = some id) {path path' : String} (hpath : row.text? "parent_path" = some path)
    (hpath' : row'.text? "parent_path" = some path') :
    likeChars (path ++ "%").toList path'.toList = true ↔
      Relation.ReflTransGen (db.IsParent table link) r id := by
  obtain ⟨chain, hchain, htext⟩ := h.paths row hrow r hr
  obtain ⟨chain', hchain', htext'⟩ := h.paths row' hrow' id hid
  obtain rfl := Option.some.inj (hpath.symm.trans htext)
  obtain rfl := Option.some.inj (hpath'.symm.trans htext')
  have hnonneg : ∀ i ∈ chain, 0 ≤ i := fun i hi => (h.range hrow hr hchain i hi).1
  have hnonneg' : ∀ i ∈ chain', 0 ≤ i := fun i hi => (h.range hrow' hid hchain' i hi).1
  rw [String.toList_append, @String.toList_ofList (pathText chain),
    @String.toList_ofList (pathText chain')]
  exact (likeChars_front isLiteral_pathText).trans
    ((pathText_prefix_iff hnonneg hnonneg').trans (hchain.prefix_iff h.one_parent hchain'))

end StoresPaths

/-- **The paths find the records that the walks find.**  A record's path begins with the path of a
root where the record is a descendant of it, and the ids in the paths of the roots are those of their
ancestors. -/
theorem storedPath_iff {db : Database} {table link : String} (h : StoresPaths db table link)
    (roots : List ℤ) {row : Row} (hrow : row ∈ db.table table) {id : ℤ}
    (hid : row.int? "id" = some id) :
    ((∃ p ∈ db.parentPathPrefixes table roots, ∃ path, row.text? "parent_path" = some path ∧
        likeChars p.toList path.toList = true) ↔ id ∈ db.descendants table link roots) ∧
      (id ∈ db.pathAncestors table roots ↔ id ∈ db.linkAncestors table link roots) := by
  have hup : id ∈ db.linkAncestors table link roots ↔
      ∃ r ∈ roots, Relation.ReflTransGen (db.IsParent table link) id r :=
    Database.mem_linkAncestors.trans
      (exists_congr fun r => and_congr_right fun _ => Relation.reflTransGen_swap)
  rw [Database.mem_descendants, hup]
  constructor
  · constructor
    · rintro ⟨p, hp, path', hpath', hlike⟩
      obtain ⟨row', hrow', r, hr, hid', path, hpath, rfl⟩ := StoresPaths.mem_parentPathPrefixes.mp hp
      exact ⟨r, hr, (h.like_iff hrow' hrow hid' hid hpath hpath').mp hlike⟩
    · rintro ⟨r, hr, hreach⟩
      obtain ⟨row', hrow', hid'⟩ := h.ancestor hrow hid hreach
      obtain ⟨chain, -, hpath⟩ := h.paths row' hrow' r hid'
      obtain ⟨chain', -, hpath'⟩ := h.paths row hrow id hid
      exact ⟨_, StoresPaths.mem_parentPathPrefixes.mpr ⟨row', hrow', r, hr, hid', _, hpath, rfl⟩, _,
        hpath', (h.like_iff hrow' hrow hid' hid hpath hpath').mpr hreach⟩
  · simp only [Database.pathAncestors, mem_ordered, List.mem_flatMap, Database.mem_rowsWhere]
    constructor
    · rintro ⟨row', ⟨hrow', r, hr, hid'⟩, hmem⟩
      obtain ⟨chain, hchain, hpath⟩ := h.paths row' hrow' r hid'
      rw [hpath, Option.elim_some, readSegments_pathText (h.range hrow' hid' hchain)] at hmem
      exact ⟨r, hr, (hchain.mem_iff h.one_parent).mp hmem⟩
    · rintro ⟨r, hr, hreach⟩
      obtain ⟨row', hrow', hid'⟩ := StoresPaths.descendant hrow hid hreach
      obtain ⟨chain, hchain, hpath⟩ := h.paths row' hrow' r hid'
      refine ⟨row', ⟨hrow', r, hr, hid'⟩, ?_⟩
      rw [hpath, Option.elim_some, readSegments_pathText (h.range hrow' hid' hchain)]
      exact (hchain.mem_iff h.one_parent).mpr hreach

/-! ## Some folders -/

namespace Folders

/-- A folder with its path, within another if any. -/
def row (id : ℤ) (parent : Option ℤ) (path : List ℤ) : Row
  | "id" => some (.int id)
  | "parent_id" => parent.map .int
  | "parent_path" => some (.text (String.ofList (pathText path)))
  | _ => none

def database : Database where
  table name := if name = "folder" then [row 3 none [3], row 12 (some 3) [3, 12], row 31 none [31]] else []
  fragment _ := []
  server := Server.plain

lemma isParent_iff {p i : ℤ} : database.IsParent "folder" "parent_id" p i ↔ p = 3 ∧ i = 12 := by
  simp [Database.IsParent, database, row, Row.int?]
  omega

lemma forall_row {P : Row → Prop} : (∀ r ∈ database.table "folder", P r) ↔
    P (row 3 none [3]) ∧ P (row 12 (some 3) [3, 12]) ∧ P (row 31 none [31]) := by
  simp [database]

lemma storesPaths : StoresPaths database "folder" "parent_id" where
  ids := forall_row.mpr ⟨⟨3, by decide, rfl⟩, ⟨12, by decide, rfl⟩, ⟨31, by decide, rfl⟩⟩
  unique := by
    simp [database, row, Row.int?]
  parents := by
    intro p i h
    obtain ⟨rfl, rfl⟩ := isParent_iff.mp h
    exact ⟨row 3 none [3], List.mem_cons_self, rfl⟩
  paths := by
    have hroot : ∀ i ≠ 12, Lineage (database.IsParent "folder" "parent_id") i [i] := by
      intro i hi
      exact .root fun p h => hi (isParent_iff.mp h).2
    refine forall_row.mpr ⟨?_, ?_, ?_⟩ <;> rintro id ⟨⟩
    · exact ⟨[3], hroot 3 (by decide), rfl⟩
    · exact ⟨[3, 12], .child (isParent_iff.mpr ⟨rfl, rfl⟩) (hroot 3 (by decide)), rfl⟩
    · exact ⟨[31], hroot 31 (by decide), rfl⟩

/-- The second folder lies in the first, and the third, whose number begins like the first's, does not. -/
theorem second_in_first :
    ((∃ p ∈ database.parentPathPrefixes "folder" [3], ∃ path,
        (row 12 (some 3) [3, 12]).text? "parent_path" = some path ∧
          likeChars p.toList path.toList = true) ↔ 12 ∈ database.descendants "folder" "parent_id" [3]) ∧
      (12 ∈ database.pathAncestors "folder" [3] ↔ 12 ∈ database.linkAncestors "folder" "parent_id" [3]) :=
  storedPath_iff storesPaths [3] (by simp [database]) rfl

end Folders

end OdooKernel
