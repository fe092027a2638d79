import PeriodicJobs.Proofs.Run.Lines
import PeriodicJobs.Proofs.Run.WholePeriods
import PeriodicJobs.Proofs.TaskSet.Jobs

set_option autoImplicit false

/- The table of a run read back. The text of a plan is a list of lines, each with its line feed, and
the lines behind the header stand for the jobs of the tasks one by one. -/
namespace PeriodicJobs

namespace JobSet

end JobSet

namespace Plan

end Plan

end PeriodicJobs
