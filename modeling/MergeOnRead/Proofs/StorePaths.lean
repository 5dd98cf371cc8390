import MergeOnRead.Files.Location
import MergeOnRead.Text.Printable
import Mathlib.Data.Bool.AllAny
import Mathlib.Data.List.Basic
import Mathlib.Data.List.Infix
import Mathlib.Data.List.TakeWhile

/-!
# Paths of stored files

A file in a store is known by a bucket and a key, and a local file by its key alone.  Written as a
location it resolves to its path as far as the key has no question mark and no hash sign: from the
first one on the key is taken for a query or a fragment, and is lost.  Files resolve apart if and
only if they differ in front of these marks (`storePath_url_iff`).

Strategy:

* `read?_url` takes a location apart again: one lemma for the scheme, and one for what stands in
  front of a separator (`takeWhile_append_cons`, `dropWhile_append_cons`);
* the path that is left has no two slashes in a row, so that nothing in it is collapsed;
* a bucket holds no slash, so that bucket and key can be told from the path
  (`append_inj_of_slash`).
-/

namespace MergeOnRead

/-! ## What stands in front of a separator -/

section Separators

variable {α : Type} {p : α → Bool} {xs ys : List α} {y : α}

theorem takeWhile_append_cons (hxs : ∀ x ∈ xs, p x = true) (hy : p y = false) :
    (xs ++ y :: ys).takeWhile p = xs := by
  rw [List.takeWhile_append_of_pos hxs, List.takeWhile_cons_of_neg (by simp [hy]), List.append_nil]

theorem dropWhile_append_cons (hxs : ∀ x ∈ xs, p x = true) (hy : p y = false) :
    (xs ++ y :: ys).dropWhile p = y :: ys := by
  rw [List.dropWhile_append_of_pos hxs, List.dropWhile_cons_of_neg (by simp [hy])]

end Separators

namespace Location

/-! ## Locations of files -/

/-- The location of a file. -/
def url (scheme bucket key : String) : String := scheme ++ "://" ++ bucket ++ "/" ++ key

/-- The path of a file in its store. -/
def placeOf (scheme bucket key : String) : String :=
  if scheme = "file" then "/" ++ key else bucket ++ "/" ++ key

/-- A character of a bucket: what ends a host, is dropped, stands for brackets or is a delimiter in
another form is none. -/
def isBucketChar (c : Char) : Bool :=
  !endsHost c && !isDropped c && c != '[' && c != ']' && !disguised.contains c.toNat

/-- The buckets of a scheme: local files have none. -/
structure IsBucket (scheme bucket : String) : Prop where
  scheme_mem : scheme ∈ "file" :: objectSchemes
  chars : ∀ c ∈ bucket.toList, isBucketChar c = true
  bare : scheme = "file" → bucket = ""

/-- Keys of files: printable, without a leading slash or two slashes in a row. -/
structure IsKey (key : String) : Prop where
  printable : ∀ c ∈ key.toList, Text.isPrintable c = true
  relative : ['/'] <+: key.toList → False
  single : ['/', '/'] <:+: key.toList → False

/-- A character behind which the rest of a location is no path. -/
def endsPath (c : Char) : Bool := c = '?' || c = '#'

/-- The part of a key in front of the first mark. -/
def shownKey (key : String) : List Char := key.toList.takeWhile fun c => !endsPath c

variable {scheme bucket key : String} {c : Char} {cs : List Char}

/-- Letters, digits, dots and hyphens are characters of buckets. -/
theorem isBucketChar_of_isAlphanum (h : c.isAlphanum = true ∨ c = '.' ∨ c = '-') :
    isBucketChar c = true := by
  have hsmall : c.toNat < 128 := by
    rcases h with h | rfl | rfl
    · rcases Bool.or_eq_true_iff.1 h with halpha | hdigit
      · rcases Bool.or_eq_true_iff.1 halpha with hupper | hlower
        · have hlast : c.toNat ≤ 'Z'.toNat := (of_decide_eq_true hupper).2
          exact Nat.lt_of_le_of_lt hlast (by decide)
        · have hlast : c.toNat ≤ 'z'.toNat := of_decide_eq_true (Bool.and_eq_true_iff.1 hlower).2
          exact Nat.lt_of_le_of_lt hlast (by decide)
      · have hlast : c.toNat ≤ '9'.toNat := of_decide_eq_true (Bool.and_eq_true_iff.1 hdigit).2
        exact Nat.lt_of_le_of_lt hlast (by decide)
    · decide
    · decide
  have hall : ∀ n < 128, (Char.ofNat n).isAlphanum = true ∨ Char.ofNat n = '.' ∨
      Char.ofNat n = '-' → isBucketChar (Char.ofNat n) = true := by decide
  rw [← Char.ofNat_toNat c] at h ⊢
  exact hall c.toNat hsmall h

/-- A name of such characters is a bucket of an object store. -/
theorem isBucket_of_isAlphanum (hscheme : scheme ∈ objectSchemes)
    (h : ∀ c ∈ bucket.toList, c.isAlphanum = true ∨ c = '.' ∨ c = '-') :
    IsBucket scheme bucket where
  scheme_mem := List.mem_cons_of_mem _ hscheme
  chars c hc := isBucketChar_of_isAlphanum (h c hc)
  bare := by
    rintro rfl
    exact absurd hscheme (by decide)

theorem isDropped_of_isPrintable (h : Text.isPrintable c = true) : isDropped c = false := by
  unfold isDropped
  simp only [Bool.or_eq_false_iff, decide_eq_false_iff_not]
  refine ⟨⟨?_, ?_⟩, ?_⟩ <;> rintro rfl <;> cases h

/-! ## Taking a location apart -/

/-- A scheme is a word of letters and digits that is no drive and has no parameters. -/
structure IsScheme (scheme : List Char) : Prop where
  chars : ∀ c ∈ scheme, c ≠ ':' ∧ isSchemeChar c = true ∧ isDropped c = false ∧ c.toLower = c
  head : ∃ first rest, scheme = first :: rest ∧ first.isAlpha = true ∧ ¬first.toNat ≤ 32
  long : 2 ≤ scheme.length
  plain : schemesWithParameters.contains (String.ofList scheme) = false

theorem isScheme_of_mem (h : scheme ∈ "file" :: objectSchemes) : IsScheme scheme.toList := by
  simp only [objectSchemes, List.mem_cons, List.not_mem_nil, or_false] at h
  rcases h with rfl | rfl | rfl | rfl
  all_goals exact ⟨List.all_iff_forall_prop.1 (by decide), ⟨_, _, rfl, by decide, by decide⟩,
    by decide, by decide⟩

theorem takeScheme_append {rest : List Char} (h : IsScheme cs) :
    takeScheme (cs ++ ':' :: rest) = (cs, rest) := by
  have hword : ∀ c ∈ cs, decide (c ≠ ':') = true := fun c hc => decide_eq_true (h.chars c hc).1
  obtain ⟨first, tail, rfl, hfirst, -⟩ := h.head
  have hall : (first :: tail).all isSchemeChar = true :=
    List.all_eq_true.2 fun c hc => (h.chars c hc).2.1
  have hlower : (first :: tail).map Char.toLower = first :: tail := by
    conv_rhs => rw [← List.map_id (first :: tail)]
    exact List.map_congr_left fun c hc => (h.chars c hc).2.2.2
  unfold takeScheme
  rw [takeWhile_append_cons hword (by decide), dropWhile_append_cons hword (by decide)]
  simp only [hfirst, hall, Bool.and_self, if_true, hlower]

theorem takeHost_append {rest : List Char} (h : ∀ c ∈ cs, endsHost c = false) :
    takeHost ('/' :: '/' :: (cs ++ '/' :: rest)) = (cs, '/' :: rest) := by
  have hhost : ∀ c ∈ cs, (!endsHost c) = true := by simpa using h
  unfold takeHost
  simp only
  rw [takeWhile_append_cons hhost (by decide), dropWhile_append_cons hhost (by decide)]

theorem bracketsOk_of_bucket (h : ∀ c ∈ cs, isBucketChar c = true) : bracketsOk cs = true := by
  have hopen : cs.contains '[' = false := by
    rw [List.contains_eq_mem, decide_eq_false_iff_not]
    intro hmem
    exact absurd (h _ hmem) (by decide)
  have hclose : cs.contains ']' = false := by
    rw [List.contains_eq_mem, decide_eq_false_iff_not]
    intro hmem
    exact absurd (h _ hmem) (by decide)
  simp only [bracketsOk, hopen, hclose]
  rfl

/-- Blanks in front are dropped, and some characters everywhere; a text without any stays. -/
theorem dropped_eq_self {text : List Char} (hhead : ∀ c ∈ text.head?, ¬c.toNat ≤ 32)
    (hall : ∀ c ∈ text, isDropped c = false) :
    ((text.dropWhile fun c => c.toNat ≤ 32).filter fun c => !isDropped c) = text := by
  have hfront : (text.dropWhile fun c => c.toNat ≤ 32) = text := by
    cases text with
    | nil => rfl
    | cons c rest => exact List.dropWhile_cons_of_neg (by simpa using hhead c rfl)
  rw [hfront, List.filter_eq_self]
  intro c hc
  rw [hall c hc]
  rfl

theorem takeWhile_marks (cs : List Char) :
    ((('/' :: cs).takeWhile (· ≠ '#')).takeWhile (· ≠ '?')) =
      '/' :: cs.takeWhile fun c => !endsPath c := by
  rw [List.takeWhile_takeWhile, List.takeWhile_cons_of_pos (by decide)]
  congr 2
  funext c
  by_cases h₁ : c = '?' <;> by_cases h₂ : c = '#' <;> simp [endsPath, h₁, h₂]

theorem read?_url (hbucket : IsBucket scheme bucket) (hkey : IsKey key) :
    read? (url scheme bucket key) =
      some ⟨scheme.toList, bucket.toList, '/' :: shownKey key⟩ := by
  have hscheme := isScheme_of_mem hbucket.scheme_mem
  have hchars : (url scheme bucket key).toList =
      scheme.toList ++ ':' :: '/' :: '/' :: (bucket.toList ++ '/' :: key.toList) := by
    simp [url, String.toList_append]
  have hbucketChar : ∀ c ∈ bucket.toList, endsHost c = false ∧ isDropped c = false ∧
      disguised.contains c.toNat = false := by
    intro c hc
    have := hbucket.chars c hc
    simp only [isBucketChar, Bool.and_eq_true, Bool.not_eq_true'] at this
    exact ⟨this.1.1.1.1, this.1.1.1.2, this.2⟩
  have hkept : (((url scheme bucket key).toList.dropWhile fun c => c.toNat ≤ 32).filter
      fun c => !isDropped c) =
      scheme.toList ++ ':' :: '/' :: '/' :: (bucket.toList ++ '/' :: key.toList) := by
    rw [hchars]
    refine dropped_eq_self ?_ ?_
    · obtain ⟨first, rest, hfirst, -, hblank⟩ := hscheme.head
      rw [hfirst]
      rintro c hc
      cases hc
      exact hblank
    · intro c hc
      simp only [List.mem_append, List.mem_cons] at hc
      rcases hc with hc | rfl | rfl | rfl | hc | rfl | hc
      · exact (hscheme.chars c hc).2.2.1
      · rfl
      · rfl
      · rfl
      · exact (hbucketChar c hc).2.1
      · rfl
      · exact isDropped_of_isPrintable (hkey.printable c hc)
  have hhost : ∀ c ∈ bucket.toList, endsHost c = false := fun c hc => (hbucketChar c hc).1
  have hdisguised : (bucket.toList.any fun c => disguised.contains c.toNat) = false := by
    rw [List.any_eq_false]
    intro c hc
    rw [(hbucketChar c hc).2.2]
    exact Bool.false_ne_true
  unfold read?
  simp only [hkept, takeScheme_append hscheme, takeHost_append hhost,
    bracketsOk_of_bucket hbucket.chars, hdisguised, hscheme.plain, takeWhile_marks]
  rfl

/-! ## The path that is left -/

/-- The path that the location of a file resolves to. -/
def shownPath (scheme bucket key : String) : String :=
  if scheme = "file" then String.ofList ('/' :: shownKey key)
  else if shownKey key = [] then bucket
  else String.ofList (bucket.toList ++ '/' :: shownKey key)

/-- A path without two slashes in a row has nothing to collapse. -/
theorem collapseSlashes_eq_self (h : ['/', '/'] <:+: cs → False) : collapseSlashes cs = cs := by
  fun_induction collapseSlashes cs with
  | case1 rest _ => exact absurd ⟨[], rest, rfl⟩ h
  | case2 c rest _ ih =>
    have htail : ['/', '/'] <:+: rest → False := fun hrest =>
      h (hrest.trans (List.suffix_cons c rest).isInfix)
    rw [ih htail]
  | case3 => rfl

theorem shownKey_prefix_toList (key : String) : shownKey key <+: key.toList :=
  List.takeWhile_prefix _

/-- No slash comes twice behind the slash in front of a key. -/
theorem single_of_isKey (hkey : IsKey key) : ['/', '/'] <:+: '/' :: shownKey key → False := by
  intro h
  rcases List.infix_cons_iff.1 h with hfront | hinner
  · have hlead : ['/'] <+: shownKey key := (List.prefix_cons_inj '/').1 hfront
    exact hkey.relative (hlead.trans (shownKey_prefix_toList key))
  · exact hkey.single (hinner.trans (shownKey_prefix_toList key).isInfix)

theorem dropWhile_slash (hkey : IsKey key) :
    ('/' :: shownKey key).dropWhile (· == '/') = shownKey key := by
  rw [List.dropWhile_cons_of_pos (by decide)]
  cases hshown : shownKey key with
  | nil => rfl
  | cons c rest =>
    apply List.dropWhile_cons_of_neg
    intro hslash
    rw [beq_iff_eq] at hslash
    refine hkey.relative (List.IsPrefix.trans ?_ (shownKey_prefix_toList key))
    rw [hshown, hslash]
    exact ⟨rest, rfl⟩

/-- The location of a file resolves to its path in front of the first mark. -/
theorem storePath_url (hbucket : IsBucket scheme bucket) (hkey : IsKey key) :
    storePath (url scheme bucket key) = .ok (shownPath scheme bucket key) := by
  have hlong := (isScheme_of_mem hbucket.scheme_mem).long
  have hplain : isPlain ⟨scheme.toList, bucket.toList, '/' :: shownKey key⟩ = false := by
    unfold isPlain
    rw [Bool.or_eq_false_iff]
    refine ⟨?_, ?_⟩
    · cases h : scheme.toList with
      | nil => rw [h] at hlong; cases hlong
      | cons => rfl
    · rw [Bool.and_eq_false_iff]
      left
      rw [beq_eq_false_iff_ne]
      show scheme.toList.length ≠ 1
      omega
  have hfile : (scheme.toList = "file".toList) = (scheme = "file") :=
    propext String.toList_inj
  unfold storePath
  rw [read?_url hbucket hkey]
  simp only [hplain, Bool.false_eq_true, if_false, collapseSlashes_eq_self (single_of_isKey hkey),
    dropWhile_slash hkey, hfile, List.isEmpty_iff, String.ofList_toList]
  unfold shownPath
  split_ifs <;> rfl

/-- A text with a slash in front has no scheme. -/
theorem takeScheme_slash (cs : List Char) : takeScheme ('/' :: cs) = ([], '/' :: cs) := by
  have hword : ('/' :: cs).takeWhile (· ≠ ':') = '/' :: cs.takeWhile (· ≠ ':') :=
    List.takeWhile_cons_of_pos (by decide)
  unfold takeScheme
  rw [hword]
  cases ('/' :: cs).dropWhile (· ≠ ':') <;> rfl

/-- Without a second slash there is no host. -/
theorem takeHost_slash (h : ['/'] <+: cs → False) : takeHost ('/' :: cs) = ([], '/' :: cs) := by
  unfold takeHost
  split
  · next rest heq =>
    cases heq
    exact absurd ⟨rest, rfl⟩ h
  · rfl

theorem read?_plain (hkey : IsKey key) : ∃ path, read? ("/" ++ key) = some ⟨[], [], path⟩ := by
  have hkept : ((("/" ++ key).toList.dropWhile fun c => c.toNat ≤ 32).filter
      fun c => !isDropped c) = '/' :: key.toList := by
    rw [String.toList_append]
    refine dropped_eq_self ?_ ?_
    · rintro c hc
      cases hc
      decide
    · intro c hc
      rcases List.mem_append.1 hc with hc | hc
      · cases List.mem_singleton.1 hc
        rfl
      · exact isDropped_of_isPrintable (hkey.printable c hc)
  unfold read?
  simp only [hkept, takeScheme_slash, takeHost_slash hkey.relative]
  exact ⟨_, rfl⟩

/-- A plain path stays as it is, to its last character. -/
theorem storePath_plain (hkey : IsKey key) : storePath ("/" ++ key) = .ok ("/" ++ key) := by
  obtain ⟨path, hread⟩ := read?_plain hkey
  unfold storePath
  rw [hread]
  rfl

/-! ## Telling files apart -/

theorem shownKey_eq_self_iff :
    shownKey key = key.toList ↔ ∀ c ∈ key.toList, endsPath c = false := by
  unfold shownKey
  rw [List.takeWhile_eq_self_iff]
  simp

/-- A slash that the front parts do not hold tells where they end. -/
theorem append_inj_of_slash {front front' rest rest' : List Char} (h : '/' ∉ front)
    (h' : '/' ∉ front') (heq : front ++ '/' :: rest = front' ++ '/' :: rest') :
    front = front' ∧ rest = rest' := by
  have htake := congrArg (List.takeWhile (· ≠ '/')) heq
  have hdrop := congrArg (List.dropWhile (· ≠ '/')) heq
  have hfront : ∀ c ∈ front, decide (c ≠ '/') = true := fun c hc =>
    decide_eq_true fun hslash => h (hslash ▸ hc)
  have hfront' : ∀ c ∈ front', decide (c ≠ '/') = true := fun c hc =>
    decide_eq_true fun hslash => h' (hslash ▸ hc)
  rw [takeWhile_append_cons hfront (by decide), takeWhile_append_cons hfront' (by decide)] at htake
  rw [dropWhile_append_cons hfront (by decide), dropWhile_append_cons hfront' (by decide)] at hdrop
  exact ⟨htake, (List.cons.inj hdrop).2⟩

theorem slash_notMem (hbucket : IsBucket scheme bucket) : '/' ∉ bucket.toList := fun h =>
  absurd (hbucket.chars '/' h) (by decide)

/-- A bucket alone is no path of a file in a bucket. -/
theorem bucket_ne_path {bucket' : String} {rest : List Char} (hbucket : IsBucket scheme bucket) :
    bucket ≠ String.ofList (bucket'.toList ++ '/' :: rest) := by
  intro h
  apply slash_notMem hbucket
  rw [h, String.toList_ofList]
  exact List.mem_append_right _ List.mem_cons_self

/-- Bucket and shown key can be told from a path. -/
theorem shownPath_inj {bucket' key' : String} (hbucket : IsBucket scheme bucket)
    (hbucket' : IsBucket scheme bucket') :
    shownPath scheme bucket key = shownPath scheme bucket' key' ↔
      bucket = bucket' ∧ shownKey key = shownKey key' := by
  constructor
  · intro h
    unfold shownPath at h
    split_ifs at h with hfile hkey hkey' hkey'
    · refine ⟨(hbucket.bare hfile).trans (hbucket'.bare hfile).symm, ?_⟩
      exact (List.cons.inj (String.ofList_injective h)).2
    · exact ⟨h, hkey.trans hkey'.symm⟩
    · exact absurd h (bucket_ne_path hbucket)
    · exact absurd h.symm (bucket_ne_path hbucket')
    · have hinj := append_inj_of_slash (slash_notMem hbucket) (slash_notMem hbucket')
        (String.ofList_injective h)
      exact ⟨String.toList_inj.1 hinj.1, hinj.2⟩
  · rintro ⟨rfl, hshown⟩
    unfold shownPath
    rw [hshown]

theorem slash_append (key : String) : "/" ++ key = String.ofList ('/' :: key.toList) := by
  rw [← String.toList_inj, String.toList_append]
  exact (String.toList_ofList (l := '/' :: key.toList)).symm

theorem bucket_append (bucket key : String) :
    bucket ++ "/" ++ key = String.ofList (bucket.toList ++ '/' :: key.toList) := by
  rw [← String.toList_inj, String.append_assoc, slash_append, String.toList_append,
    String.toList_ofList, String.toList_ofList]

/-- The path of a file is complete if and only if its key has no mark, and in an object store if
the key is not empty either: without a key the path is that of the bucket. -/
theorem shownPath_eq_placeOf_iff (hbucket : IsBucket scheme bucket) :
    shownPath scheme bucket key = placeOf scheme bucket key ↔
      (∀ c ∈ key.toList, endsPath c = false) ∧ (scheme = "file" ∨ key ≠ "") := by
  rw [← shownKey_eq_self_iff]
  unfold shownPath placeOf
  rw [slash_append, bucket_append]
  split_ifs with hfile hempty
  · rw [String.ofList_inj, List.cons_inj_right]
    exact (and_iff_left (Or.inl hfile)).symm
  · refine iff_of_false (bucket_ne_path hbucket) ?_
    rintro ⟨hwhole, hscheme | hkey⟩
    · exact hfile hscheme
    · exact hkey (String.toList_eq_nil_iff.1 (hwhole.symm.trans hempty))
  · rw [String.ofList_inj, List.append_cancel_left_eq, List.cons_inj_right]
    refine (and_iff_left_of_imp fun hwhole => Or.inr ?_).symm
    rintro rfl
    exact hempty hwhole

/-! ## The path of a file -/

/-- What the location of a file resolves to. -/
structure ResolvesUpToMark (scheme bucket key : String) : Prop where
  /-- A location resolves, to the path of its file in front of the first mark. -/
  path : storePath (url scheme bucket key) = .ok (shownPath scheme bucket key)
  /-- The path is complete to the last character exactly if the key has no mark; in an object store
  a file has a key. -/
  complete_iff : storePath (url scheme bucket key) = .ok (placeOf scheme bucket key) ↔
    (∀ c ∈ key.toList, endsPath c = false) ∧ (scheme = "file" ∨ key ≠ "")
  /-- Two files of a scheme resolve to one path exactly if they are in one bucket and their keys
  agree in front of the first mark. -/
  same_iff : ∀ bucket' key', IsBucket scheme bucket' → IsKey key' →
    (storePath (url scheme bucket key) = storePath (url scheme bucket' key') ↔
      bucket = bucket' ∧ shownKey key = shownKey key')
  /-- A plain path is complete, whatever its characters are. -/
  plain : storePath ("/" ++ key) = .ok ("/" ++ key)
  /-- The location of a local file agrees with its plain path exactly if the key has no mark. -/
  plain_iff : scheme = "file" →
    (storePath (url scheme bucket key) = storePath ("/" ++ key) ↔
      ∀ c ∈ key.toList, endsPath c = false)

/-- The location of every file resolves, completely and apart from all other files if and only if
no mark stands in a key. -/
theorem storePath_url_iff (hbucket : IsBucket scheme bucket) (hkey : IsKey key) :
    ResolvesUpToMark scheme bucket key := by
  have hpath := storePath_url hbucket hkey
  have hplain := storePath_plain hkey
  refine { path := hpath, plain := hplain, complete_iff := ?_, same_iff := ?_, plain_iff := ?_ }
  · rw [hpath, Except.ok.injEq]
    exact shownPath_eq_placeOf_iff hbucket
  · intro bucket' key' hbucket' hkey'
    rw [hpath, storePath_url hbucket' hkey', Except.ok.injEq]
    exact shownPath_inj hbucket hbucket'
  · intro hfile
    have hplace : placeOf scheme bucket key = "/" ++ key := if_pos hfile
    rw [hpath, hplain, Except.ok.injEq, ← hplace, shownPath_eq_placeOf_iff hbucket]
    exact and_iff_left (Or.inl hfile)

/-- Two files of a partition that are read as one. -/
theorem storePath_url_iff_marked :
    ResolvesUpToMark "s3" "b" "day=1?x" ∧
      storePath (url "s3" "b" "day=1?x") = storePath (url "s3" "b" "day=1?y") := by
  have hbucket : IsBucket "s3" "b" :=
    isBucket_of_isAlphanum (by decide) (List.all_iff_forall_prop.1 (by decide))
  have hkey : IsKey "day=1?x" := ⟨List.all_eq_true.1 (by decide), by decide, by decide⟩
  have hkey' : IsKey "day=1?y" := ⟨List.all_eq_true.1 (by decide), by decide, by decide⟩
  have hresolves := storePath_url_iff hbucket hkey
  exact ⟨hresolves, (hresolves.same_iff "b" "day=1?y" hbucket hkey').2 ⟨rfl, by decide⟩⟩

end Location

end MergeOnRead
