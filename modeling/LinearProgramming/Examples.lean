import LinearProgramming.Problem

/-!
The problems that come with the program.
-/

namespace LinearProgramming

/-- Two products made on three machines. -/
def firstExample : Problem Float where
  a := [[1, 0], [0, 2], [3, 2]]
  b := [4, 12, 18]
  c := [3, 5]

/-- Two products that share one resource, each with a limit of its own. -/
def secondExample : Problem Float where
  a := [[20, 30], [1, 0], [0, 1]]
  b := [1200, 40, 30]
  c := [1000, 1800]

def examples : List (String × Problem Float) :=
  [("Case 1", firstExample), ("Case 2", secondExample)]

end LinearProgramming
