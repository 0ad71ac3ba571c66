/-!
The names under which the program presents itself.
-/
namespace Qubo.About

def name : String := "sqaod"
def codename : String := "Rust CPU Solvers"
def version : String := "0.1.0"

end Qubo.About
