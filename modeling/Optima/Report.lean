import Optima.Decimal.Writing
import Optima.Text.Quoted

/-!
The layout of reports: a short text that names an outcome, and a summary over several lines. Some
summaries repeat each of their parts fifty times; only their first rule stands alone.
-/

namespace Optima.Report

def width : Nat := 50

def doubleRule : String := String.ofList (List.replicate width '=')

def singleRule : String := String.ofList (List.replicate width '-')

def lines (items : List String) : String := "\n".intercalate items

/-- A part of a summary: its lines and the mark that ends it, over and over. -/
def part (items : List String) (mark : String) : String :=
  String.join (List.replicate width ("\n" ++ lines (items ++ [mark])))

def repeated (title : String) (before after : List String) : String :=
  doubleRule ++ part [title] "=" ++ part before "-" ++ part after "="

def plain (title : String) (before after : List String) : String :=
  lines ([doubleRule, title, doubleRule] ++ before ++ [singleRule] ++ after ++ [doubleRule])

def seconds (time : Float) : String := Decimal.fixed 4 time

def components (xs : List Float) : String := Text.bracketed (xs.map Decimal.shortest)

/-- A short text over several lines, between the name of the outcome and a closing bracket. -/
def short (name : String) (items : List String) : String :=
  lines [name ++ "(", ",\n".intercalate (items.map ("  " ++ ·)), ")"]

def periodLine (period : Nat) (worth : String) (state : List Float) : String :=
  "t=" ++ Decimal.leftAligned 3 (toString period) ++
    " objective=" ++ Decimal.leftAligned 12 worth ++
    " state=" ++ components state

end Optima.Report
