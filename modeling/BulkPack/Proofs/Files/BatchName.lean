import BulkPack.BatchFiles
import BulkPack.Proofs.Files.Path
import BulkPack.Proofs.Text.Digits

/-!
# Names of batch files

A name is that of a batch file exactly when it is the stem, an underscore, digits and one of the two
ends. A name has one stem, one number and one end only, and neither the name of the manifest nor
that of a file that is not finished is that of a batch file.
-/

namespace BulkPack

theorem Manifest.isName_fileName : Path.IsName Manifest.fileName :=
  Path.IsName.of_length (by decide) (by decide)

namespace BatchFiles

theorem dropStart?_eq_some_iff {start cs rest : List Char} :
    dropStart? start cs = some rest ↔ cs = start ++ rest := by
  unfold dropStart?
  constructor
  · intro h
    split at h
    · next hprefix =>
      obtain ⟨tail, rfl⟩ := List.isPrefixOf_iff_prefix.mp hprefix
      simpa using h
    · exact absurd h (by simp)
  · rintro rfl
    simp

theorem dropEnd?_eq_some_iff {tail cs front : List Char} :
    dropEnd? tail cs = some front ↔ cs = front ++ tail := by
  unfold dropEnd?
  constructor
  · intro h
    split at h
    · next hsuffix =>
      obtain ⟨head, rfl⟩ := List.isSuffixOf_iff_suffix.mp hsuffix
      simpa using h
    · exact absurd h (by simp)
  · rintro rfl
    simp

theorem extension_unique {cs ds : List Char} {gzip gzip' : Bool}
    (h : cs ++ extension gzip = ds ++ extension gzip') : gzip = gzip' := by
  have hlast := congrArg List.getLast? h
  cases gzip <;> cases gzip' <;> first | rfl | simp [extension] at hlast

theorem isBatchName_iff (stem name : List Char) :
    isBatchName stem name = true ↔
      ∃ digits gzip, digits ≠ [] ∧ (∀ c ∈ digits, c.isDigit = true) ∧
        name = stem ++ '_' :: (digits ++ extension gzip) := by
  unfold isBatchName
  constructor
  · intro h
    cases hstart : dropStart? (stem ++ ['_']) name with
    | none => simp [hstart] at h
    | some rest =>
      rw [hstart] at h
      have hname := dropStart?_eq_some_iff.mp hstart
      cases hend : (dropEnd? (extension true) rest).or (dropEnd? (extension false) rest) with
      | none => simp [hend] at h
      | some digits =>
        simp only [hend, Bool.and_eq_true, bne_iff_ne, List.all_eq_true] at h
        rcases Option.or_eq_some_iff.mp hend with hrest | ⟨-, hrest⟩
        · exact ⟨digits, true, h.1, h.2, by simp [hname, dropEnd?_eq_some_iff.mp hrest]⟩
        · exact ⟨digits, false, h.1, h.2, by simp [hname, dropEnd?_eq_some_iff.mp hrest]⟩
  · rintro ⟨digits, gzip, hne, hdigits, rfl⟩
    have hstart : dropStart? (stem ++ ['_']) (stem ++ '_' :: (digits ++ extension gzip))
        = some (digits ++ extension gzip) := dropStart?_eq_some_iff.mpr (by simp)
    have hend : (dropEnd? (extension true) (digits ++ extension gzip)).or
        (dropEnd? (extension false) (digits ++ extension gzip)) = some digits := by
      cases gzip with
      | true => rw [dropEnd?_eq_some_iff.mpr rfl, Option.some_or]
      | false =>
        have hnone : dropEnd? (extension true) (digits ++ extension false) = none := by
          cases h : dropEnd? (extension true) (digits ++ extension false) with
          | none => rfl
          | some front =>
            exact absurd (extension_unique (dropEnd?_eq_some_iff.mp h)) (by decide)
        rw [hnone, Option.none_or, dropEnd?_eq_some_iff.mpr rfl]
    simp only [hstart, hend, Bool.and_eq_true, bne_iff_ne, List.all_eq_true]
    exact ⟨hne, hdigits⟩

theorem isBatchName_nameChars (stem : List Char) (gzip : Bool) (n : Nat) :
    isBatchName stem (nameChars stem gzip n) = true :=
  (isBatchName_iff _ _).mpr ⟨Text.padded 4 n, gzip, Text.padded_ne_nil 4 n,
    fun _ => Text.isDigit_of_mem_padded, rfl⟩

/-- Digits behind an underscore are told apart from what stands before it: they are the longest row
of digits at the end. -/
theorem stem_digits_unique {p q ds es : List Char} (hds : ∀ c ∈ ds, c.isDigit = true)
    (hes : ∀ c ∈ es, c.isDigit = true) (h : p ++ '_' :: ds = q ++ '_' :: es) :
    p = q ∧ ds = es := by
  have hreverse : ds.reverse ++ '_' :: p.reverse = es.reverse ++ '_' :: q.reverse := by
    simpa using congrArg List.reverse h
  have hcut : ∀ r : List Char, ∀ c ∈ ('_' :: r).head?, c.isDigit = false := by
    intro r c hc
    rw [← Option.some.inj hc]
    decide
  have hds' : ∀ c ∈ ds.reverse, c.isDigit = true := by simpa using hds
  have hes' : ∀ c ∈ es.reverse, c.isDigit = true := by simpa using hes
  have hfront := Text.takeWhile_digits hds' (hcut p.reverse)
  have hfront' := Text.takeWhile_digits hes' (hcut q.reverse)
  rw [hreverse] at hfront
  have hdigits : ds.reverse = es.reverse := hfront.1.symm.trans hfront'.1
  have hstem : '_' :: p.reverse = '_' :: q.reverse := hfront.2.symm.trans hfront'.2
  exact ⟨List.reverse_inj.mp (List.cons.inj hstem).2, List.reverse_inj.mp hdigits⟩

theorem parts_unique {p q ds es : List Char} {gzip gzip' : Bool}
    (hds : ∀ c ∈ ds, c.isDigit = true) (hes : ∀ c ∈ es, c.isDigit = true)
    (h : p ++ '_' :: (ds ++ extension gzip) = q ++ '_' :: (es ++ extension gzip')) :
    p = q ∧ ds = es ∧ gzip = gzip' := by
  have hsplit : (p ++ '_' :: ds) ++ extension gzip = (q ++ '_' :: es) ++ extension gzip' := by
    simpa using h
  obtain rfl := extension_unique hsplit
  obtain ⟨hstem, hdigits⟩ := stem_digits_unique hds hes (List.append_cancel_right hsplit)
  exact ⟨hstem, hdigits, rfl⟩

theorem isBatchName_nameChars_iff {p q : List Char} {gzip : Bool} {n : Nat} :
    isBatchName p (nameChars q gzip n) = true ↔ p = q := by
  constructor
  · intro h
    obtain ⟨digits, gzip', -, hdigits, hname⟩ := (isBatchName_iff _ _).mp h
    exact (parts_unique (fun _ => Text.isDigit_of_mem_padded) hdigits hname).1.symm
  · rintro rfl
    exact isBatchName_nameChars _ _ _

theorem nameChars_eq_iff {p q : List Char} {gzip gzip' : Bool} {m n : Nat} :
    nameChars p gzip m = nameChars q gzip' n ↔ p = q ∧ m = n ∧ gzip = gzip' := by
  constructor
  · intro h
    obtain ⟨hstem, hpadded, hgzip⟩ := parts_unique (fun _ => Text.isDigit_of_mem_padded)
      (fun _ => Text.isDigit_of_mem_padded) h
    exact ⟨hstem, Text.padded_injective hpadded, hgzip⟩
  · rintro ⟨rfl, rfl, rfl⟩
    rfl

/-- Of the names that a stem has, those that are written are the ones whose number has four digits,
or more of them and no zero in front. -/
theorem exists_nameChars_eq_iff {stem digits : List Char} {gzip : Bool} (limit : Nat)
    (hdigits : ∀ c ∈ digits, c.isDigit = true) :
    (∃ gzip', ∃ n < limit, stem ++ '_' :: (digits ++ extension gzip) = nameChars stem gzip' n) ↔
      4 ≤ digits.length ∧ (4 < digits.length → digits.head? ≠ some '0') ∧
        Text.digitsValue digits < limit := by
  rw [← and_assoc, ← Text.eq_padded_iff (by decide) hdigits]
  constructor
  · rintro ⟨gzip', n, hn, hname⟩
    obtain ⟨-, hpadded, -⟩ := parts_unique hdigits (fun _ => Text.isDigit_of_mem_padded) hname
    rw [hpadded, Text.digitsValue_padded]
    exact ⟨rfl, hn⟩
  · rintro ⟨hpadded, hlimit⟩
    refine ⟨gzip, _, hlimit, ?_⟩
    rw [nameChars, ← hpadded]

/-! ### Other names -/

theorem extension_suffix {stem name : List Char} (h : isBatchName stem name = true) :
    ∃ gzip, extension gzip <:+ name := by
  obtain ⟨digits, gzip, -, -, rfl⟩ := (isBatchName_iff _ _).mp h
  exact ⟨gzip, stem ++ '_' :: digits, by simp⟩

theorem not_isBatchName_manifest (stem : List Char) :
    isBatchName stem Manifest.fileName.toList = false := by
  cases h : isBatchName stem Manifest.fileName.toList with
  | false => rfl
  | true =>
    obtain ⟨gzip, hsuffix⟩ := extension_suffix h
    cases gzip <;> exact absurd hsuffix (by decide)

theorem isUnfinished_iff (name : String) :
    isUnfinished name = true ↔ ∃ cs, cs ≠ [] ∧ name.toList = cs ++ ".tmp".toList := by
  unfold isUnfinished Path.hasExtension
  simp only [Bool.and_eq_true, decide_eq_true_eq, List.isSuffixOf_iff_suffix]
  constructor
  · rintro ⟨⟨cs, hcs⟩, hlength⟩
    refine ⟨cs, ?_, hcs.symm⟩
    rintro rfl
    rw [← hcs] at hlength
    exact absurd hlength (by decide)
  · rintro ⟨cs, hne, hcs⟩
    have hpos : 0 < cs.length := List.length_pos_iff.mpr hne
    refine ⟨⟨cs, hcs.symm⟩, ?_⟩
    rw [hcs, List.length_append]
    show 4 < cs.length + 4
    omega

theorem not_isBatchName_of_isUnfinished {stem : List Char} {name : String}
    (h : isUnfinished name = true) : isBatchName stem name.toList = false := by
  obtain ⟨cs, -, hcs⟩ := (isUnfinished_iff name).mp h
  cases hbatch : isBatchName stem name.toList with
  | false => rfl
  | true =>
    obtain ⟨gzip, front, hfront⟩ := extension_suffix hbatch
    have hlast := congrArg List.getLast? (hfront.trans hcs)
    cases gzip <;> simp [extension] at hlast

theorem isUnfinished_draft {name : String} (h : name ≠ "") :
    isUnfinished (name ++ ".tmp") = true := by
  refine (isUnfinished_iff _).mpr ⟨name.toList, by simpa using h, by simp⟩

/-! ### Names in a directory -/

variable (f : BatchFiles) (n : Nat)

@[simp] theorem toList_fileName :
    (f.fileName n).toList = nameChars f.stem.toList f.level.isSome n := by
  simp [fileName]

theorem isBatchFile_fileName_iff {f g : BatchFiles} {n : Nat} :
    f.isBatchFile (g.fileName n) = true ↔ f.stem = g.stem := by
  unfold isBatchFile
  rw [toList_fileName, isBatchName_nameChars_iff, String.toList_inj]

theorem fileName_eq_iff {f g : BatchFiles} {m n : Nat} :
    f.fileName m = g.fileName n ↔
      f.stem = g.stem ∧ m = n ∧ f.level.isSome = g.level.isSome := by
  rw [← String.toList_inj, toList_fileName, toList_fileName, nameChars_eq_iff, String.toList_inj]

theorem isBatchFile_fileName : f.isBatchFile (f.fileName n) = true :=
  isBatchFile_fileName_iff.mpr rfl

theorem fileName_injective {f : BatchFiles} {m n : Nat} (h : f.fileName m = f.fileName n) :
    m = n :=
  (fileName_eq_iff.mp h).2.1

theorem isUnfinished_fileName : isUnfinished (f.fileName n) = false := by
  cases h : isUnfinished (f.fileName n) with
  | false => rfl
  | true =>
    have hnot := @not_isBatchName_of_isUnfinished f.stem.toList _ h
    exact absurd ((f.isBatchFile_fileName n).symm.trans hnot) (by decide)

theorem fileName_ne_manifest : f.fileName n ≠ Manifest.fileName := by
  intro h
  have hbatch := f.isBatchFile_fileName n
  rw [h] at hbatch
  exact absurd (hbatch.symm.trans (not_isBatchName_manifest _)) (by decide)

theorem fileName_ne_empty : f.fileName n ≠ "" := by
  intro hempty
  obtain ⟨gzip, hsuffix⟩ := extension_suffix (f.isBatchFile_fileName n)
  rw [hempty] at hsuffix
  cases gzip <;> exact absurd hsuffix (by decide)

theorem fileName_ne_draft (name : String) : f.fileName n ≠ name ++ ".tmp" := by
  intro heq
  obtain ⟨gzip, front, hfront⟩ := extension_suffix (f.isBatchFile_fileName n)
  rw [heq, String.toList_append] at hfront
  have hlast := congrArg List.getLast? hfront
  cases gzip <;> simp [extension] at hlast

/-- A place for batch files recognizes the files of another one exactly when both have the same
stem, whichever of them is compressed. The files of two places have different names, unless the
stems, the numbers and the ends are the same. So among files written under any stems, a run picks
out those under its own and no other. -/
theorem batch_names_unambiguous (f g : BatchFiles) (m n : Nat) :
    (f.isBatchFile (g.fileName n) = true ↔ f.stem = g.stem) ∧
      (f.fileName m = g.fileName n ↔
        f.stem = g.stem ∧ m = n ∧ f.level.isSome = g.level.isSome) ∧
      ∀ written : List (BatchFiles × Nat),
        (written.map fun b => b.1.fileName b.2).filter f.isBatchFile
          = (written.filter fun b => b.1.stem = f.stem).map fun b => b.1.fileName b.2 := by
  refine ⟨isBatchFile_fileName_iff, fileName_eq_iff, fun written => ?_⟩
  rw [List.filter_map]
  refine congrArg (List.map _) (List.filter_congr fun b _ => ?_)
  rw [Bool.eq_iff_iff, Function.comp_apply, isBatchFile_fileName_iff, decide_eq_true_iff]
  exact eq_comm

theorem no_slash_extension (gzip : Bool) : '/' ∉ extension gzip := by
  cases gzip <;> decide

theorem no_slash_of_isBatchFile {f : BatchFiles} {name : String} (hstem : '/' ∉ f.stem.toList)
    (h : f.isBatchFile name = true) : '/' ∉ name.toList := by
  obtain ⟨digits, gzip, -, hdigits, hname⟩ := (isBatchName_iff _ _).mp h
  rw [hname]
  simp only [List.mem_append, List.mem_cons, not_or]
  refine ⟨hstem, by decide, fun hmem => ?_, no_slash_extension gzip⟩
  exact absurd (hdigits '/' hmem) (by decide)

theorem isName_of_isBatchFile {f : BatchFiles} {name : String} (hstem : '/' ∉ f.stem.toList)
    (h : f.isBatchFile name = true) : Path.IsName name := by
  refine Path.IsName.of_length ?_ (no_slash_of_isBatchFile hstem h)
  obtain ⟨gzip, hsuffix⟩ := extension_suffix h
  have hlength := hsuffix.length_le
  have hextension : 7 ≤ (extension gzip).length := by cases gzip <;> decide
  omega

theorem isName_of_isUnfinished {name : String} (hslash : '/' ∉ name.toList)
    (h : isUnfinished name = true) : Path.IsName name := by
  refine Path.IsName.of_length ?_ hslash
  obtain ⟨cs, hne, hcs⟩ := (isUnfinished_iff name).mp h
  have hpos : 0 < cs.length := List.length_pos_iff.mpr hne
  have hlength : ".tmp".toList.length = 4 := by decide
  rw [hcs, List.length_append, hlength]
  omega

theorem isName_draft {name : String} (h : Path.IsName name) : Path.IsName (name ++ ".tmp") := by
  refine Path.IsName.of_length ?_ ?_
  · have hlength : ".tmp".toList.length = 4 := by decide
    rw [String.toList_append, List.length_append, hlength]
    omega
  · rw [String.toList_append, List.mem_append, not_or]
    exact ⟨h.no_slash, by decide⟩

end BatchFiles

end BulkPack
