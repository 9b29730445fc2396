/-
# What stands in lists of parameters

Two rules make nodes for parameters in lists, and each keeps to a row of its own:

| list of | a parameter is |
| --- | --- |
| a function | a pattern with `:` and a type, `...` with or without a pattern, or a type |
| a closure | a pattern, with or without `:` and a type |

A third rule is for function types, where a name stands before the `:` and no pattern; so the rows
hold of the parameters in the lists right below functions and closures, and not of all
(`offers_params`).
-/

import Packrat.Proofs.Language.Row
import Packrat.Proofs.Peg.Offer

namespace Packrat
namespace Language

open Peg

/-- A parameter of a function. -/
def paramRow : Row :=
  inOrder [.star (aNode .attr),
    .alt (inOrder [aPat, aToken .colon, aType])
      (.alt (inOrder [.opt (inOrder [aPat, aToken .colon]), aToken .dotDotDot]) aType)]

/-- A parameter of a closure. -/
def closureParamRow : Row :=
  inOrder [.star (aNode .attr), aPat, .opt (inOrder [aToken .colon, aType])]

/-- The row of the parameters in the lists right below the nodes of a kind. -/
def paramRowUnder : Kind → Option Row
  | .fn => some paramRow
  | .closureExpr => some closureParamRow
  | _ => none

/-- A node of parameters keeps to a row, or the node is another. -/
def liesIfParam (g : Grammar) (row : Row) (kind : Kind) (t : Term) : Bool :=
  kind != .param || Row.isWithin 24 (t.row (g.rowOf 24)) row

/-- The parameters of a list keep to a row, or the node is another. -/
def offersIfList (g : Grammar) (row : Row) (kind : Kind) (t : Term) : Bool :=
  kind != .paramList || g.offers (liesIfParam g row) 24 t

/-- **The rules keep to the rows in the lists of functions and closures.** -/
theorem offers_params {g : Grammar} (hg : grammar = .ok g) :
    g.allMade (fun kind t => (paramRowUnder kind).all fun row =>
      g.offers (offersIfList g row) 24 t) = true := by
  have hall : coded.any (fun g => g.allMade fun kind t => (paramRowUnder kind).all fun row =>
      g.offers (offersIfList g row) 24 t) = true := by
    decide +kernel
  exact of_coded hall hg

end Language
end Packrat
