/-
# Thread budgets

A budget of threads is split once: a number of workers, each with an equal share of threads for
its transforms.

    budget     workers
    up to 4    1
    5 to 8     2
    9 to 16    4
    above      a quarter of the budget
-/

namespace ProofMiner
namespace Threads

/-- The budget when nothing says otherwise. -/
def defaultBudget : Int := 4

/-- The number of workers for a budget. -/
def optimalWorkers (total : Int) : Int :=
  if total ≤ 4 then 1
  else if total ≤ 8 then 2
  else if total ≤ 16 then 4
  else total.tdiv 4

/-- The share of each worker, at least one thread. -/
def perWorker (total workers : Int) : Int := max 1 (total.tdiv (max 1 workers))

end Threads
end ProofMiner
