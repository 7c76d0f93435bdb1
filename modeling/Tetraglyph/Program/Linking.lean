/-
  Tetraglyph.Program.Linking
  ──────────────────────────
  **LINKING.**

  Linking gives every instruction its successor and pairs up the braces, so
  that each jumps to its partner.  It goes through the program once and keeps
  the open braces on a list, the innermost first.  A closing brace without an
  open one fails there; braces still open at the end fail at the innermost.
-/
import Tetraglyph.Failure
import Tetraglyph.Program.Instr

namespace Tetraglyph.Linking

/-- A program under way, and its open braces, the innermost first. -/
structure Progress where
  /-- The program, linked up to some place. -/
  program : Program
  /-- The indexes of the braces not closed yet. -/
  openBraces : List Nat

/-- The index after `id` in a program of `n` instructions. -/
def successor (n id : Nat) : Int := if id + 1 < n then ((id + 1 : Nat) : Int) else halt

/-- Links one instruction. -/
def linkOne (st : Progress) (id : Nat) : Except Failure Progress :=
  match st.program[id]? with
  | none => .ok st
  | some ix =>
    let next := successor st.program.size id
    match ix.kind with
    | .lbrace => .ok ⟨st.program.setIfInBounds id { ix with next }, id :: st.openBraces⟩
    | .rbrace =>
      match st.openBraces with
      | [] => .error (.syntactic .openingBraceExpected id)
      | l :: rest =>
        let p := st.program.setIfInBounds id { ix with next, jump := (l : Int) }
        .ok ⟨p.modify l fun lx => { lx with jump := (id : Int) }, rest⟩
    | _ => .ok ⟨st.program.setIfInBounds id { ix with next, jump := next }, st.openBraces⟩

/-- Links a freshly decoded program. -/
def link (p : Program) : Except Failure Program := do
  let st ← (List.range p.size).foldlM linkOne ⟨p, []⟩
  match st.openBraces with
  | [] => return st.program
  | l :: _ => .error (.syntactic .closingBraceExpected l)

end Tetraglyph.Linking
