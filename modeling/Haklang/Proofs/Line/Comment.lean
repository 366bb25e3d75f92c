import Haklang.Execution
import Haklang.Proofs.Tree.Grammar

/-!
# Comments

The rule for comments is the last of the list. The rules before it look at the start of a line and
do not fit one that starts with a slash (`beforeOutput_eq_none`, `afterOutput_eq_none`), except for
the two rules for output, which look at its end. So a line that starts with two slashes is a comment
unless it ends with the word of an output line, and then it writes the tokens that stand in it
(`ofString_slashes`).
-/

namespace Haklang

open Text

namespace Line

/-! ### Rules that do not fit -/

/-- The rules before those for output. -/
def beforeOutput : List Rule := rules.take 15

/-- The rules between those for output and that for comments. -/
def afterOutput : List Rule := (rules.drop 17).take 23

/-- The rules with the two for output set apart, and the one for comments, which is the last. -/
theorem rules_eq : rules =
    beforeOutput ++ outputRule "쿰척<쿰척" true :: outputRule "<쿰척" false ::
      (afterOutput ++ [commentRule]) :=
  rfl

variable {s : List Char}

/-- No rule before output reads a line that begins with a slash. -/
theorem beforeOutput_eq_none {r : Rule} (h : r ∈ beforeOutput) : r ('/' :: s) = none := by
  -- Each rule fails at its first character, before anything of the rest is looked at.
  revert r
  simp only [beforeOutput, rules, List.take_succ_cons, List.take_zero, List.forall_mem_cons]
  exact ⟨rfl, rfl, rfl, rfl, rfl, rfl, rfl, rfl, rfl, rfl, rfl, rfl, rfl, rfl, rfl, by simp⟩

/-- Nor does one of those behind output. -/
theorem afterOutput_eq_none {r : Rule} (h : r ∈ afterOutput) : r ('/' :: s) = none := by
  revert r
  simp only [afterOutput, rules, List.take_succ_cons, List.take_zero, List.drop_succ_cons,
    List.drop_zero, List.forall_mem_cons]
  exact ⟨rfl, rfl, rfl, rfl, rfl, rfl, rfl, rfl, rfl, rfl, rfl, rfl, rfl, rfl, rfl, rfl, rfl, rfl,
    rfl, rfl, rfl, rfl, rfl, by simp⟩

/-- A line that starts with two slashes is output if it ends with a word of output, and a comment
otherwise. -/
theorem ofChars_slashes (s : List Char) :
    ofChars ('/' :: '/' :: s) =
      match before? "쿰척<쿰척".toList ('/' :: '/' :: s) with
      | some body => statement (.ofOutput body true)
      | none =>
        match before? "<쿰척".toList ('/' :: '/' :: s) with
        | some body => statement (.ofOutput body false)
        | none => statement .comment := by
  have hbefore : beforeOutput.findSome? (· ('/' :: '/' :: s)) = none :=
    List.findSome?_eq_none_iff.2 fun _ h ↦ beforeOutput_eq_none h
  have hafter : afterOutput.findSome? (· ('/' :: '/' :: s)) = none :=
    List.findSome?_eq_none_iff.2 fun _ h ↦ afterOutput_eq_none h
  have hcomment : commentRule ('/' :: '/' :: s) = some (statement .comment) := rfl
  rw [ofChars, rules_eq, List.findSome?_append, hbefore, Option.none_or, List.findSome?_cons,
    List.findSome?_cons, List.findSome?_append, hafter, Option.none_or, List.findSome?_cons,
    hcomment, outputRule, outputRule]
  cases before? "쿰척<쿰척".toList ('/' :: '/' :: s) with
  | some body => rfl
  | none =>
    cases before? "<쿰척".toList ('/' :: '/' :: s) with
    | some body => rfl
    | none => rfl

/-- A text ends with a word exactly if something stands before the word. -/
theorem before?_eq_none_iff {w cs : List Char} : before? w cs = none ↔ ¬ w <:+ cs := by
  rw [Option.eq_none_iff_forall_ne_some]
  simp only [ne_eq, before?_eq_some_iff]
  exact ⟨fun h ⟨l, hl⟩ ↦ h l hl.symm, fun h l hl ↦ h ⟨l, hl.symm⟩⟩

/-- A line that begins with two slashes closes nothing. -/
theorem isCloser_slashes (s : String) : isCloser ("//" ++ s) = false := by
  have hhead : ("//" ++ s).toList.head? = some '/' := by simp
  rw [← Bool.not_eq_true, isCloser_iff]
  rintro (h | h | h | h)
  all_goals
    rw [h] at hhead
    exact absurd hhead (by decide)

/-- What stands behind two slashes has the same ends as the whole. -/
theorem suffix_slashes_iff {w : List Char} (hw : '/' ∉ w) :
    w <:+ '/' :: '/' :: s ↔ w <:+ s := by
  have hcons {t : List Char} : w <:+ '/' :: t ↔ w <:+ t := by
    rw [List.suffix_cons_iff]
    refine or_iff_right ?_
    rintro rfl
    exact hw List.mem_cons_self
  rw [hcons, hcons]

end Line

/-- A character where no token begins is passed over. -/
theorem OutputItem.readAll_cons_of_none {c : Char} {cs : List Char} (h : token? (c :: cs) = none) :
    readAll (c :: cs) = readAll cs := by
  rw [readAll]
  split
  case h_1 item r hsome =>
    rw [h] at hsome
    cases hsome
  case h_2 => rfl

/-- A token is read, and then what stands behind it. -/
theorem OutputItem.readAll_cons_of_some {c : Char} {cs r : List Char} {item : OutputItem}
    (h : token? (c :: cs) = some (item, r)) : readAll (c :: cs) = item :: readAll r := by
  rw [readAll]
  split
  case h_1 item' r' hsome =>
    rw [h] at hsome
    obtain ⟨rfl, rfl⟩ := Prod.mk.inj (Option.some.inj hsome)
    rfl
  case h_2 hnone =>
    rw [h] at hnone
    cases hnone

/-- An output statement writes text and changes nothing else. -/
theorem Tree.run_ofOutput (call : Callee) (id : Nat) (line : SourceLine) (body : List Char)
    (newline : Bool) (m : Machine) :
    ∃ text, (Tree.statement id line (.ofOutput body newline)).run call m =
      .ok .next { m with console := m.console.note (.output text) } :=
  ⟨_, rfl⟩

namespace Line

/-- The words at the end of output lines, with and without a line feed. -/
def outputWord (newline : Bool) : String := if newline then "쿰척<쿰척" else "<쿰척"

/-- A slashed line with the ending of output is output. -/
theorem ofString_slashes_of_suffix {s : String} (h : (outputWord false).toList <:+ s.toList) :
    ∃ body newline, ("//" ++ s).toList = body ++ (outputWord newline).toList ∧
      ofString ("//" ++ s) = .statement (.ofOutput body newline) := by
  have htext : ("//" ++ s).toList = '/' :: '/' :: s.toList := by simp
  have hshort : before? "<쿰척".toList ('/' :: '/' :: s.toList) ≠ none := by
    rw [ne_eq, before?_eq_none_iff, suffix_slashes_iff (by decide)]
    exact fun hno ↦ hno h
  obtain ⟨body, hbody⟩ := Option.ne_none_iff_exists'.1 hshort
  rw [ofString, htext, ofChars_slashes, hbody]
  cases hlong : before? "쿰척<쿰척".toList ('/' :: '/' :: s.toList) with
  | some body' => exact ⟨body', true, before?_eq_some_iff.1 hlong, rfl⟩
  | none => exact ⟨body, false, before?_eq_some_iff.1 hbody, rfl⟩

/-- Any other slashed line is a comment. -/
theorem ofString_slashes_of_not_suffix {s : String}
    (h : ¬ (outputWord false).toList <:+ s.toList) :
    ofString ("//" ++ s) = .statement .comment := by
  have htext : ("//" ++ s).toList = '/' :: '/' :: s.toList := by simp
  have hlonger : (outputWord false).toList <:+ (outputWord true).toList := ⟨"쿰척".toList, rfl⟩
  have hshort : before? "<쿰척".toList ('/' :: '/' :: s.toList) = none := by
    rwa [before?_eq_none_iff, suffix_slashes_iff (by decide)]
  have hlong : before? "쿰척<쿰척".toList ('/' :: '/' :: s.toList) = none := by
    rw [before?_eq_none_iff, suffix_slashes_iff (by decide)]
    exact fun hlong ↦ h (hlonger.trans hlong)
  rw [ofString, htext, ofChars_slashes, hlong, hshort]

/-- A line that starts with two slashes is a statement, whatever follows. It is a comment, which
leaves the machine as it is, unless it ends with the word of an output line; then it is output, and
writes text without changing anything else. -/
theorem ofString_slashes (s : String) :
    isCloser ("//" ++ s) = false ∧ ∃ st, ofString ("//" ++ s) = .statement st ∧
      if (outputWord false).toList <:+ s.toList then
        (∃ body newline, ("//" ++ s).toList = body ++ (outputWord newline).toList ∧
          st = .ofOutput body newline) ∧
        ∀ (call : Callee) (id : Nat) (line : SourceLine) (m : Machine), ∃ text,
          (Tree.statement id line st).run call m =
            .ok .next { m with console := m.console.note (.output text) }
      else
        st = .comment ∧ ∀ (call : Callee) (id : Nat) (line : SourceLine) (m : Machine),
          (Tree.statement id line st).run call m = .ok .next m := by
  refine ⟨isCloser_slashes s, ?_⟩
  by_cases hend : (outputWord false).toList <:+ s.toList
  · obtain ⟨body, newline, htext, hline⟩ := ofString_slashes_of_suffix hend
    refine ⟨.ofOutput body newline, hline, ?_⟩
    rw [if_pos hend]
    exact ⟨⟨body, newline, htext, rfl⟩, fun call id line m ↦
      Tree.run_ofOutput call id line body newline m⟩
  · refine ⟨.comment, ofString_slashes_of_not_suffix hend, ?_⟩
    rw [if_neg hend]
    exact ⟨rfl, fun call id line m ↦ rfl⟩

/-- An output line is not turned off by slashes before it. -/
theorem ofString_slashed_output :
    ofString "//(\"a\")쿰척<쿰척" = .statement (.output [.text "a"] true) := by
  have htext : "//(\"a\")쿰척<쿰척".toList =
      '/' :: '/' :: ['(', '"', 'a', '"', ')', '쿰', '척', '<', '쿰', '척'] := by decide
  have hbody : before? "쿰척<쿰척".toList
      ('/' :: '/' :: ['(', '"', 'a', '"', ')', '쿰', '척', '<', '쿰', '척']) =
      some ['/', '/', '(', '"', 'a', '"', ')'] := before?_eq_some_iff.2 rfl
  have hitems : OutputItem.readAll ['/', '/', '(', '"', 'a', '"', ')'] = [.text "a"] := by
    rw [OutputItem.readAll_cons_of_none rfl, OutputItem.readAll_cons_of_none rfl,
      OutputItem.readAll_cons_of_none rfl, OutputItem.readAll_cons_of_some rfl,
      OutputItem.readAll_cons_of_none rfl, OutputItem.readAll]
  rw [ofString, htext, ofChars_slashes, hbody, ← hitems]
  rfl

end Line

end Haklang
