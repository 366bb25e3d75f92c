import Haklang.Proofs.Action.Respects
import Haklang.Proofs.Line.WrittenList
import Haklang.Proofs.Number.Notation
import Haklang.Proofs.Value.Arithmetic

/-!
# Decimals that are written and read

A decimal is written as what it is rounded to, in plain notation, and what is written is read back
as just that (`written_decimals`). So a decimal with no more places than its type writes is the same
number when its text is the next line of the console and is read into a variable of that type
(`Statement.run_input_render`), whatever scale it has.
-/

namespace Haklang

open Haklang.Action

/-- A number with at most `k` places. -/
def Decimal.FitsPlaces (d : Decimal) (k : Nat) : Prop :=
  ∃ n : ℤ, d.toRat = n * (10 : ℚ) ^ (-(k : ℤ))

/-- The text of a decimal, on the console, is the decimal with its places. -/
theorem Value.ofConsole?_render (p : Precision) (d : Decimal) :
    ofConsole? (.decimal p) (decimal p d).render = some (.decimal p (d.rounded p.places)) := by
  have htight : Text.Tight (d.fixed p.places).toList :=
    Line.tight_of_isNumeric fun c hc ↦ Expr.isNumeric_of_mem_fixed hc
  show (Decimal.read? (Text.trim (d.fixed p.places).toList)).map (decimal p) = _
  rw [Text.trim_of_tight (d.toList_fixed_ne_nil p.places) htight, d.read?_fixed_places p,
    Option.map_some]

/-- The next line of the console is read. -/
theorem Action.readLine_of_cons {m : Machine} {text : String} {rest : List String}
    (h : m.console.input = text :: rest) :
    readLine m = .ok text { m with console := { m.console with input := rest } } := by
  have hconsole : m.console.readLine = (some text, { m.console with input := rest }) := by
    rw [Console.readLine, h]
  have hread : readLine m =
      .ok (m.console.readLine.1.getD "") { m with console := m.console.readLine.2 } := rfl
  rw [hread, hconsole]
  rfl

/-- Reading a written decimal into a variable of its type gives it the decimal with its places. -/
theorem Statement.run_input_render {name : String} {p : Precision} {d : Decimal} {v : Variable}
    {rest : List String} {m : Machine} (hv : m.store.lookup? name = some v)
    (htag : v.tag = .decimal p) (hline : m.console.input = (Value.decimal p d).render :: rest)
    (call : Callee) (newline : Bool) (line : SourceLine) :
    ∃ m', (input (some name) newline).run call line m = .ok .next m' ∧
      m'.store.lookup? name = some { v with value := .decimal p (d.rounded p.places) } := by
  -- the variable as it is written, and the machine behind it
  let w : Variable := { v with value := .decimal p (d.rounded p.places) }
  let m₁ : Machine := { m with console := { m.console with input := rest } }
  have hset : m₁.store.set name (.decimal p (d.rounded p.places)) =
      (.ok (), m.store.put name w) := by
    refine Store.update_of_ok hv ?_
    rw [htag]
    rfl
  have hinput : inputTo name m = .ok () { m₁ with store := m.store.put name w } := by
    rw [inputTo, bind_of_ok (read_get_of_some hv), bind_of_ok (readLine_of_cons hline), htag,
      Value.ofConsole?_render]
    exact change_of_ok hset
  have hlookup : (m.store.put name w).lookup? name = some w := by
    rw [Store.lookup?_put, if_pos rfl]
  rw [run, bind_of_ok hinput]
  cases newline with
  | false => exact ⟨_, rfl, hlookup⟩
  | true => exact ⟨_, rfl, hlookup⟩

/-- Decimals are written and read as they should be. The text of a decimal is plain notation, with
as many places as were asked for, of the number that it is rounded to; rounding keeps the order, and
what is written is read back as that number, if the number of places is one of 64 bits, and is
written in the same way again. A decimal that has no more places than its type is the same number
when its text is typed into a variable of the type. Without its places, a decimal is the whole
number next to it on the side of zero, if that is in range. -/
theorem written_decimals :
    (∀ (d : Decimal) (k : Nat), d.IsRounding k (d.rounded k) ∧
      Decimal.IsPlain k (d.rounded k).toRat (d.fixed k).toList ∧
      (d.rounded k).fixed k = d.fixed k) ∧
    (∀ (d : Decimal) (k : Nat), k ≤ 9223372036854775807 →
      Decimal.read? (d.fixed k).toList = some (d.rounded k)) ∧
    (∀ (d d' : Decimal) (k : Nat), d.toRat ≤ d'.toRat →
      (d.rounded k).toRat ≤ (d'.rounded k).toRat) ∧
    (∀ (p : Precision) (d : Decimal), d.FitsPlaces p.places → ∃ e : Decimal, e.toRat = d.toRat ∧
      Value.ofConsole? (.decimal p) (Value.decimal p d).render = some (.decimal p e) ∧
      ∀ name v rest (m : Machine), m.store.lookup? name = some v → v.tag = .decimal p →
        m.console.input = (Value.decimal p d).render :: rest → ∀ call newline line,
          ∃ m', (Statement.input (some name) newline).run call line m = .ok .next m' ∧
            m'.store.lookup? name = some { v with value := .decimal p e }) ∧
    ∀ d : Decimal, (∀ n, d.truncate? = some n ↔ n.val = towardZero d.toRat) ∧
      (d.truncate? = none ↔ ¬ Integer.InRange (towardZero d.toRat)) := by
  refine ⟨fun d k ↦ ⟨d.isRounding_rounded k, d.isPlain_fixed k, d.fixed_rounded k⟩,
    fun d k ↦ d.read?_fixed,
    fun d d' k ↦ (d.isRounding_rounded k).toRat_le (d'.isRounding_rounded k),
    fun p d ⟨n, hn⟩ ↦ ?_, fun d ↦ ⟨fun n ↦ ?_, ?_⟩⟩
  · exact ⟨d.rounded p.places, Decimal.toRat_rounded_of_eq hn, Value.ofConsole?_render p d,
      fun name v rest m ↦ Statement.run_input_render⟩
  · rw [d.truncate?_eq, Integer.ofInt?_eq_some_iff]
  · rw [d.truncate?_eq, Integer.ofInt?_eq_none_iff_not_inRange]

/-- Minus three hundred and fifty, with its last digit left out of the digits. -/
theorem written_decimals_whole :
    let d : Decimal := ⟨-35, -1⟩
    let m : Machine :=
      { generator := .ofSeed 0
        store := ({} : Store).declare "x" (.decimal .seven) false
        console := { input := ["-350.0000000"] } }
    Decimal.read? "-350.0000000".toList = some (d.rounded 7) ∧
      (d.rounded 0).toRat ≤ (Decimal.rounded ⟨-3495, 1⟩ 0).toRat ∧
      ∃ (e : Decimal) (m' : Machine), e.toRat = d.toRat ∧
        (Statement.input (some "x") false).run (callFunction 0) ⟨1, ""⟩ m = .ok .next m' ∧
        m'.store.lookup? "x" = some ⟨.decimal .seven e, .decimal .seven, false⟩ := by
  intro d m
  obtain ⟨-, hread, hle, htyped, -⟩ := written_decimals
  have htext : d.fixed 7 = "-350.0000000" := by decide +kernel
  have hvalue : d.toRat = -350 := by norm_num [d, Decimal.toRat_mk]
  have hfits : d.FitsPlaces Precision.seven.places :=
    ⟨-3500000000, by rw [hvalue, Precision.places]; norm_num⟩
  have hv : m.store.lookup? "x" = some ⟨.decimal .seven ⟨307, 1⟩, .decimal .seven, false⟩ := by
    show (Store.put {} "x" _).lookup? "x" = _
    rw [Store.lookup?_put, if_pos rfl]
    rfl
  obtain ⟨e, he, -, hrun⟩ := htyped .seven d hfits
  obtain ⟨m', hm', hlookup⟩ := hrun "x" _ [] m hv rfl (by rw [Value.render]; exact htext ▸ rfl)
    (callFunction 0) false ⟨1, ""⟩
  refine ⟨htext ▸ hread d 7 (by decide), hle _ _ 0 ?_, e, m', he, hm', hlookup⟩
  rw [hvalue, Decimal.toRat_mk]
  norm_num

end Haklang
