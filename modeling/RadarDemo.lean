import RadarDemo.Concurrency.Transition
import RadarDemo.Concurrency.Redraw
import RadarDemo.Concurrency.Cursor
import RadarDemo.Concurrency.Crew
import RadarDemo.Concurrency.Gate
import RadarDemo.Concurrency.Linked
import RadarDemo.Concurrency.Agenda
import RadarDemo.Plane.Polar
import RadarDemo.Observable
import RadarDemo.Geometry
import RadarDemo.TestModel
import RadarDemo.Painting
import RadarDemo.Picture
import RadarDemo.ObstacleLoop
import RadarDemo.System
import RadarDemo.Moves
import RadarDemo.Coherence
import RadarDemo.Freshness
import RadarDemo.Tearing
import RadarDemo.ThreadUse
import RadarDemo.Lifetime
import RadarDemo.Screen
import RadarDemo.Lockfree.Collection
import RadarDemo.Lockfree.Invariant
import RadarDemo.Lockfree.Step
import RadarDemo.Lockfree.Safety
import RadarDemo.Lockfree.Flow
import RadarDemo.Lockfree.Loss
import RadarDemo.Lockfree.Contract
import RadarDemo.Lockfree.Answers
import RadarDemo.Lockfree.Quiet
import RadarDemo.Lockfree.Removal
import RadarDemo.Lockfree.Progress
import RadarDemo.Lockfree.Serial
import RadarDemo.Expr.Sheet
import RadarDemo.Expr.Wired
import RadarDemo.Expr.InSync
import RadarDemo.Expr.Determined
import RadarDemo.Expr.Update
import RadarDemo.Expr.Lazy
import RadarDemo.Expr.Moved
