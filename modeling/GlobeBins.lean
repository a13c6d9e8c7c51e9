import GlobeBins.Disk
import GlobeBins.Main
import GlobeBins.Proofs.Codec.Acceptance
import GlobeBins.Proofs.Codec.Orders
import GlobeBins.Proofs.Grid.Tiling
import GlobeBins.Proofs.Guarded.Run
import GlobeBins.Proofs.Job.Cleanup
import GlobeBins.Proofs.Job.Conservation
import GlobeBins.Proofs.Job.Construction
import GlobeBins.Proofs.Job.Failure
import GlobeBins.Proofs.Job.Fresh
import GlobeBins.Proofs.Job.Layout
import GlobeBins.Proofs.Job.Lines
import GlobeBins.Proofs.Job.Refinement
import GlobeBins.Proofs.Product.Names
import GlobeBins.Proofs.Product.Session
import GlobeBins.Proofs.Region.Finite
import GlobeBins.Proofs.Region.Overlap
import GlobeBins.Proofs.Settings.Validity
import GlobeBins.Proofs.Shuffle.Balance
import GlobeBins.Proofs.Shuffle.Regions
import GlobeBins.Proofs.Shuffle.Remainders
import GlobeBins.Proofs.SpatialPass.Acceptance
import GlobeBins.Proofs.Statistic.Burns
import GlobeBins.Proofs.Statistic.Configured
import GlobeBins.Proofs.Statistic.Counts
import GlobeBins.Proofs.Statistic.Extremes
import GlobeBins.Proofs.Statistic.Fill
import GlobeBins.Proofs.Statistic.Logarithms
import GlobeBins.Proofs.Statistic.Majority
import GlobeBins.Proofs.Statistic.Months
import GlobeBins.Proofs.Text.Dates
